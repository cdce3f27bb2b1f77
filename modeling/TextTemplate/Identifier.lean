/-
TextTemplate.Identifier — the names a placeholder may have: an ASCII
letter or an underscore, then any number of ASCII letters, digits and
underscores. Letters of other scripts never belong to a name.
-/
namespace TextTemplate.Identifier

/-- The characters a name may begin with. -/
def isStart (c : Char) : Bool :=
  c.isAlpha || c == '_'

/-- The characters a name may go on with. -/
def isContinue (c : Char) : Bool :=
  c.isAlphanum || c == '_'

/-- A whole name. -/
def isName (name : String) : Bool :=
  match name.toList with
  | [] => false
  | first :: rest => isStart first && rest.all isContinue

theorem isContinue_of_isStart {c : Char} (h : isStart c = true) : isContinue c = true := by
  simp only [isStart, isContinue, Char.isAlphanum, Bool.or_eq_true] at h ⊢
  exact h.imp_left Or.inl

end TextTemplate.Identifier
