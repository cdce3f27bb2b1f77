/-
TextTemplate.Json.Expected — reading one kind of value where any could
stand, and saying what stood there instead.

A value of another kind is refused with its own name: a scalar is read to
its end and named with what it says, so that one that is malformed is
reported as that; of an array or an object only the bracket is looked at.
-/
import TextTemplate.Json.Value
import TextTemplate.Text.Quoted

namespace TextTemplate.Json

open Reader

/-- Name what is read. -/
def describeHandler : Handler Unit String where
  null := "null"
  boolean b := s!"boolean `{b}`"
  number := do
    match ← Number.read with
    | .whole n => return s!"integer `{n}`"
    | .double x => return s!"floating point `{(Number.double x).text}`"
  text := return "string " ++ Quoted.write (← Text.body Text.character)
  key := return ()
  array _ := "sequence"
  object _ := "map"

/-- The name of the value that stands here. -/
def describe : Reader String := do
  match ← peek with
  | some '[' => return "sequence"
  | some '\x7b' => return "map"
  | _ => describeHandler.valueWith none

/-- Refuse the value that stands here. -/
def wrongType {α : Type} (expected : String) : Reader α := do
  let found ← describe
  throw (.refused s!"invalid type: {found}, expected {expected}")

/-- A string, where one is `expected`. -/
def textOr (expected : String) : Reader String := do
  blanks
  if (← peek) = some '"' then
    skip
    Text.body Text.character
  else
    wrongType expected

/-- A null, where one is `expected`. -/
def nullOr (expected : String) : Reader Unit := do
  blanks
  if (← peek) = some 'n' then
    word ['n', 'u', 'l', 'l']
  else
    wrongType expected

/-- The members of an object, where one is `expected`. -/
def membersOr (expected : String) : Reader Members := do
  blanks
  if (← peek) = some '\x7b' then
    match ← Value.read with
    | .object ms => return ms
    | _ => return []
  else
    wrongType expected

/-- The members of a document that is an object. -/
def Members.parse (document : String) : Except Error Members :=
  Reader.document (membersOr "a map") document

end TextTemplate.Json
