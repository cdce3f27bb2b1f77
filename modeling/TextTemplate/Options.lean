/-
TextTemplate.Options — what a render does about a placeholder that has no
value.
-/
namespace TextTemplate

/-- What becomes of a placeholder without a value. -/
inductive Policy where
  /-- It ends the render. -/
  | fail
  /-- It is written back. -/
  | leave
  deriving DecidableEq, Repr

/-- The options of a render. -/
structure Options where
  missing : Policy := .fail
  deriving DecidableEq, Repr

namespace Options

/-- A placeholder without a value ends the render. -/
def strict : Options :=
  ⟨.fail⟩

/-- A placeholder without a value is written back. -/
def lenient : Options :=
  ⟨.leave⟩

/-- Unless they say otherwise, options are strict. -/
instance : Inhabited Options :=
  ⟨{}⟩

end Options

end TextTemplate
