/-
TextTemplate.Failure — everything that can go wrong on the way from a source
to its rendered text.
-/
import TextTemplate.Json.Error
import TextTemplate.SyntaxError

namespace TextTemplate

/-- A render met a placeholder that has no value. -/
structure MissingKey where
  name : String
  deriving DecidableEq, Repr

def MissingKey.message (e : MissingKey) : String :=
  s!"missing key \"{e.name}\""

/-- Any failure of the library. -/
inductive Failure where
  /-- The source is malformed. -/
  | malformed (cause : SyntaxError)
  /-- A value is missing. -/
  | missing (cause : MissingKey)
  /-- The options could not be read. -/
  | options (cause : Json.Error)
  deriving DecidableEq, Repr

def Failure.message : Failure → String
  | .malformed cause => cause.message
  | .missing cause => cause.message
  | .options _ => "failed to parse render options"

end TextTemplate
