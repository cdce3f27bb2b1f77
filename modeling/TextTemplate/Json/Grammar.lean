/-
TextTemplate.Json.Grammar — one walk over the grammar of JSON, into
whatever is to be made of it.

A `Handler` says what to make of each kind of value and how its numbers,
strings and keys are read. Values that are wanted and values that are
passed over differ in their handlers and in nothing else. Depth is the
structure the walk recurs on: a bracket that is one too deep is malformed.
-/
import TextTemplate.Json.Reader

namespace TextTemplate.Json

/-- What to make of a document, with keys in `κ` and values in `α`. -/
structure Handler (κ α : Type) where
  null : α
  boolean : Bool → α
  /-- Reads a number from its first character on. -/
  number : Reader α
  /-- Reads a string behind its opening quote. -/
  text : Reader α
  /-- Reads a key behind its opening quote. -/
  key : Reader κ
  array : List α → α
  object : List (κ × α) → α

open Reader

/-- A key, the colon behind it, and a value. -/
def member {κ α : Type} (key : Reader κ) (value : κ → Reader α) : Reader α := do
  blanks
  expect '"'
  let k ← key
  blanks
  expect ':'
  value k

namespace Handler

variable {κ α : Type} (handler : Handler κ α)

/-- A value whose brackets hold what `inner` reads, or that has none. -/
def valueWith (inner : Option (Reader α)) : Reader α := do
  blanks
  match ← peek with
  | none => throw .truncated
  | some 'n' =>
    word ['n', 'u', 'l', 'l']
    return handler.null
  | some 't' =>
    word ['t', 'r', 'u', 'e']
    return handler.boolean true
  | some 'f' =>
    word ['f', 'a', 'l', 's', 'e']
    return handler.boolean false
  | some '"' =>
    skip
    handler.text
  | some '[' =>
    let some inner := inner | throw .malformed
    skip
    let xs ← items ']' (fun xs => return xs.push (← inner)) (#[] : Array α)
    return handler.array xs.toList
  | some '\x7b' =>
    let some inner := inner | throw .malformed
    skip
    let pair k := return (k, ← inner)
    let ms ← items '\x7d' (fun ms => return ms.push (← member handler.key pair))
      (#[] : Array (κ × α))
    return handler.object ms.toList
  | some c =>
    if c = '-' || c.isDigit then handler.number else throw .malformed

/-- A value with brackets up to `depth` deep. -/
def value : (depth : Nat) → Reader α
  | 0 => handler.valueWith none
  | depth + 1 => handler.valueWith (some (value depth))

end Handler

end TextTemplate.Json
