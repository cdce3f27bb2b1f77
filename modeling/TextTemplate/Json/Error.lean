/-
TextTemplate.Json.Error — why a document is not read.

A reader goes from left to right and stops at the first thing that is
wrong, so an error says what that first thing was: the document ended, or
it is no JSON, or it is JSON so far and not what was asked for.
-/
namespace TextTemplate.Json

inductive Error where
  /-- The document ends too early. -/
  | truncated
  /-- What stands there is no JSON. -/
  | malformed
  /-- What stands there is JSON and is not accepted. -/
  | refused (why : String)
  deriving DecidableEq, Repr

end TextTemplate.Json
