/-
TextTemplate.SyntaxError — what is wrong with a malformed placeholder, and
where.

`position` is the byte offset of the character that broke the placeholder,
or the length of the source where it ended too early; `opened` is the
offset of the dollar sign it began with. Line and column are those of
`position`.
-/
import TextTemplate.Text.Location

namespace TextTemplate

/-- Why a placeholder is malformed. -/
inductive SyntaxError.Kind where
  /-- After the dollar sign stands no dollar sign, name or braced name. -/
  | invalidPlaceholder
  /-- A brace is opened and not closed behind the name. -/
  | unterminatedBrace
  deriving DecidableEq, Repr

def SyntaxError.Kind.text : Kind → String
  | .invalidPlaceholder => "invalid placeholder"
  | .unterminatedBrace => "unterminated braced placeholder"

/-- A malformed placeholder. -/
structure SyntaxError where
  kind : SyntaxError.Kind
  position : Nat
  opened : Nat
  line : Nat
  column : Nat
  deriving DecidableEq, Repr

namespace SyntaxError

/-- The error at a byte offset of `source`, with its line and column. -/
def at? (source : String) (kind : Kind) (opened position : Nat) : Option SyntaxError := do
  let place ← locate? source position
  return ⟨kind, position, opened, place.line, place.column⟩

/-- The message for a reader of the source. -/
def message (e : SyntaxError) : String :=
  s!"{e.kind.text} at line {e.line}, column {e.column} (byte {e.position})"

end SyntaxError

end TextTemplate
