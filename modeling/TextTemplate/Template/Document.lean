/-
TextTemplate.Template.Document — a template as JSON: its source, as a
string.

Only a template with nothing malformed in it is written, for only such a
source is read back. What follows the string is looked at after the source
is parsed, so a document that goes on behind a template still leaves the
parse in the log.
-/
import TextTemplate.Json.Expected
import TextTemplate.Template

namespace TextTemplate

/-- A template that cannot be written, for the first thing malformed in it. -/
structure Unwritable where
  cause : SyntaxError
  deriving DecidableEq, Repr

def Unwritable.message (e : Unwritable) : String :=
  s!"template is not valid and cannot be read back: {e.cause.message}"

namespace Template

/-- A template as a document. -/
def toJson (t : Template) : Except Unwritable String :=
  match t.errors with
  | [] => .ok (Json.Text.write t.source)
  | cause :: _ => .error ⟨cause⟩

section

variable {m : Type → Type} [Monad m] [MonadLog m]

/-- The template of a document. -/
def ofJsonM (document : String) : m (Except Json.Error Template) := do
  match (Json.textOr "a string").run document.toList with
  | .error e => return .error e
  | .ok (source, rest) =>
    match ← parseM source with
    | .error e => return .error (.refused e.message)
    | .ok t => return (Json.Reader.finish.run rest).map fun _ => t

end

/-- The template of a document. -/
def ofJson (document : String) : Except Json.Error Template :=
  Id.run (ofJsonM document)

end Template

end TextTemplate
