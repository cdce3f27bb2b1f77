/-
TextTemplate.Proofs.Repair — salvaging a source is parsing it repaired.

To repair a source is to double each dollar sign that a malformed
placeholder was found at, and `salvage_eq_repaired` says that nothing else
stands between the two ways to read: the repaired source is accepted, and it
gives the segments that salvaging gives for the source as it is.

A stray dollar sign is a token, and doubling it makes an escape of it. So a
repair turns one list of tokens into another, token by token, and the proof
is that the new list is the cut of the repaired source. What could go wrong
is at the seams: a dollar sign put in might pair up with one that is there,
or end a name that went on. Neither happens, because a token and its repair
begin with the same character (`head?_sourceOf_repaired`) and that is all a
name in front of it can see.
-/
import TextTemplate.Proofs.Grammar
import TextTemplate.Proofs.Rendering

namespace TextTemplate

/-! ## Repairing a source -/

/-- A text with a dollar sign put in at a byte offset between two of its
characters. -/
def insertDollar? (offset : Nat) (text : String) : Option String := do
  let before ← Span.cut? ⟨0, offset⟩ text
  let after ← Span.cut? ⟨offset, text.utf8ByteSize⟩ text
  return before ++ "$" ++ after

/-- The source with a dollar sign more right before each malformed
placeholder. The last one is seen to first, which leaves the offsets of the
others what they are. -/
def repair? (source : String) : Option String :=
  (Template.salvage source).errors.foldrM (fun e text => insertDollar? e.opened text) source

theorem insertDollar?_of_toList {text : String} {before after : List Char}
    (h : text.toList = before ++ after) :
    insertDollar? (byteLength before) text = some (String.ofList (before ++ '$' :: after)) := by
  have hfront : text.toList = [] ++ before ++ after := h
  have hback : text.toList = before ++ after ++ [] := by rw [h, List.append_nil]
  have hbefore := Span.cut?_of_toList hfront
  have hafter := Span.cut?_of_toList hback
  have hsize : text.utf8ByteSize = byteLength before + byteLength after := by
    rw [← byteLength_toList, h, byteLength_append]
  simp only [byteLength_nil, Nat.zero_add] at hbefore
  rw [insertDollar?, hbefore, hsize, hafter]
  simp [String.ofList_append, String.ofList_cons, String.append_assoc]

/-! ## Repairing tokens -/

namespace Token

/-- A stray dollar sign as an escape. -/
def repaired : Token → Token
  | .stray .. => .escape
  | t => t

@[simp] theorem isText_repaired (t : Token) : t.repaired.isText = t.isText := by
  cases t <;> rfl

@[simp] theorem text_repaired (t : Token) : t.repaired.text = t.text := by
  cases t <;> rfl

theorem head?_written_repaired (t : Token) : t.repaired.written.head? = t.written.head? := by
  cases t <;> rfl

theorem Begins.isProper_repaired {t : Token} {text rest : List Char} (h : t.Begins text rest) :
    t.repaired.IsProper := by
  cases hstray : t.isStray with
  | false =>
    have hself : t.repaired = t := by
      cases t with
      | stray => cases hstray
      | _ => rfl
    rw [hself]
    exact h.isProper hstray
  | true =>
    cases t with
    | stray => trivial
    | _ => cases hstray

theorem Ends.repaired {t : Token} {rest : List Char} (h : t.Ends rest) : t.repaired.Ends rest := by
  cases t with
  | stray => trivial
  | _ => exact h

end Token

theorem head?_sourceOf_repaired (ts : List Token) :
    (sourceOf (ts.map Token.repaired)).head? = (sourceOf ts).head? := by
  cases ts with
  | nil => rfl
  | cons t ts =>
    rw [List.map_cons, sourceOf_cons, sourceOf_cons, List.head?_append, List.head?_append,
      t.head?_written_repaired]
    obtain ⟨c, more, hwritten⟩ := List.exists_cons_of_ne_nil t.written_ne_nil
    rw [hwritten]
    rfl

/-- The tokens of a text, repaired, are the way to read what they stand
for. -/
theorem Tokenizes.reads_repaired {ts : List Token} {text : List Char} (h : Tokenizes ts text) :
    Reads (ts.map Token.repaired) (sourceOf (ts.map Token.repaired)) := by
  induction h with
  | nil => exact reads_nil
  | @cons t ts text rest first more ih =>
    have hhead : (sourceOf (ts.map Token.repaired)).head? = rest.head? := by
      rw [head?_sourceOf_repaired, more.source_eq]
    rw [List.map_cons, sourceOf_cons]
    exact .cons first.isProper_repaired (first.ends.of_head? hhead).repaired ih

/-- Putting dollar signs in where the errors are doubles the stray ones. -/
theorem foldrM_insertDollar? (ts : List Token) (before : List Char) :
    (errorsFrom before ts).foldrM (fun e text => insertDollar? e.opened text)
        (String.ofList (before ++ sourceOf ts)) =
      some (String.ofList (before ++ sourceOf (ts.map Token.repaired))) := by
  induction ts generalizing before with
  | nil => rfl
  | cons t ts ih =>
    have hlater := ih (before ++ t.written)
    rw [List.append_assoc] at hlater
    rw [errorsFrom, List.foldrM_append, sourceOf_cons, hlater]
    cases t with
    | stray kind read =>
      have hinsert : insertDollar? (byteLength before) (String.ofList
          (before ++ (Token.stray kind read).written ++ sourceOf (ts.map Token.repaired))) =
          some (String.ofList (before ++ '$' ::
            ((Token.stray kind read).written ++ sourceOf (ts.map Token.repaired)))) :=
        insertDollar?_of_toList (by simp)
      simpa [Token.error?, Token.repaired, Token.written] using hinsert
    | _ => simp [Token.error?, Token.repaired]

theorem repair?_eq (source : String) :
    repair? source =
      some (String.ofList (sourceOf ((tokens source.toList).map Token.repaired))) := by
  have h := foldrM_insertDollar? (tokens source.toList) []
  rw [List.nil_append, (tokenizes_tokens source.toList).source_eq, String.ofList_toList] at h
  rw [repair?, Template.salvage_eq, h, List.nil_append]

/-! ## Segments of repaired tokens -/

theorem textOf_repaired (ts : List Token) : textOf (ts.map Token.repaired) = textOf ts := by
  induction ts with
  | nil => rfl
  | cons t ts ih => simp [ih]

theorem EndsRun.repaired {ts : List Token} (h : EndsRun ts) : EndsRun (ts.map Token.repaired) := by
  cases ts with
  | nil => exact endsRun_nil
  | cons t ts =>
    rintro u ⟨⟩
    rw [Token.isText_repaired, h t rfl]

theorem segmentsFrom_repaired (ts : List Token) (offset offset' : Nat) :
    SameSegments (segmentsFrom offset (ts.map Token.repaired)) (segmentsFrom offset' ts) := by
  induction ts using run_induction generalizing offset offset' with
  | nil => simp
  | placeholder style name rest ih =>
    have hself : (Token.placeholder style name).repaired = .placeholder style name := rfl
    rw [List.map_cons, hself, segmentsFrom_placeholder, segmentsFrom_placeholder offset']
    exact .cons (.placeholder name style _ _) (ih _ _)
  | run run rest hne hrun hrest ih =>
    have hrepaired : ∀ t ∈ run.map Token.repaired, t.isText = true := by
      simpa using hrun
    rw [List.map_append,
      segmentsFrom_append_run offset (by simpa using hne) hrepaired hrest.repaired,
      segmentsFrom_append_run offset' hne hrun hrest, textOf_repaired]
    exact .cons (.literal _ _ _) (ih _ _)

/-- **Salvaging is parsing what was repaired**: with a dollar sign more in
front of each malformed placeholder a source is accepted, its segments are
those of the source salvaged but for the spans, and it renders alike. -/
theorem salvage_eq_repaired (source : String) :
    (Template.salvage source).errors.Pairwise (fun e f => e.opened < f.opened) ∧
    ∃ repaired t, repair? source = some repaired ∧ Template.parse repaired = .ok t ∧
      SameSegments t.segments (Template.salvage source).segments ∧
      ∀ (m : Type → Type) [Monad m] [MonadLog m] [LawfulMonad m] (lookup : Lookup m)
        (options : Options),
        t.render lookup options = (Template.salvage source).render lookup options ∧
          t.renderPartial lookup = (Template.salvage source).renderPartial lookup := by
  have hreads : Reads ((tokens source.toList).map Token.repaired)
      (String.ofList (sourceOf ((tokens source.toList).map Token.repaired))).toList := by
    rw [String.toList_ofList]
    exact (tokenizes_tokens source.toList).reads_repaired
  have hsame : SameSegments (segmentsFrom 0 ((tokens source.toList).map Token.repaired))
      (Template.salvage source).segments := by
    rw [Template.salvage_eq]
    exact segmentsFrom_repaired (tokens source.toList) 0 0
  refine ⟨?_, _, _, repair?_eq source, Template.parse_eq_ok_of_reads hreads, hsame, ?_⟩
  · rw [Template.salvage_eq]
    exact pairwise_errorsFrom [] (tokens source.toList)
  intro m _ _ _ lookup options
  exact ⟨Template.render_congr hsame lookup options, Template.renderPartial_congr hsame lookup⟩

/-- The dollar sign that is put in stands next to an escape and does not pair
up with it. -/
theorem salvage_beside_escape :
    ∃ t, Template.parse "$$$$\x7ba $x" = .ok t ∧
      t.render (m := Id) (Lookup.ofPairs [("x", "$$")]) =
        (Template.salvage "$$$\x7ba $x").render (m := Id) (Lookup.ofPairs [("x", "$$")]) := by
  obtain ⟨-, repaired, t, hrepair, hparse, -, hrender⟩ := salvage_eq_repaired "$$$\x7ba $x"
  have hrepaired : repair? "$$$\x7ba $x" = some "$$$$\x7ba $x" := by decide +kernel
  rw [hrepaired, Option.some_inj] at hrepair
  subst hrepair
  exact ⟨t, hparse, (hrender Id _ _).1⟩

end TextTemplate
