/-
TextTemplate.Json.Value — the values of JSON.

The members of an object are kept in the order of their keys and each key
once, so that two objects that say the same are the same.
-/
import TextTemplate.Json.Grammar
import TextTemplate.Json.Number
import TextTemplate.Json.Text

namespace TextTemplate.Json

inductive Value where
  | null
  | boolean (b : Bool)
  | number (n : Number)
  | text (s : String)
  | array (xs : List Value)
  | object (ms : List (String × Value))

/-- The members of an object, by key. -/
abbrev Members : Type :=
  List (String × Value)

namespace Members

/-- Give a key a value, in its place in the order of keys. -/
def insert (key : String) (value : Value) : Members → Members
  | [] => [(key, value)]
  | (k, v) :: rest =>
    if key < k then (key, value) :: (k, v) :: rest
    else if key = k then (key, value) :: rest
    else (k, v) :: insert key value rest

/-- Members in the order they are written in. The last of a key counts. -/
def ofList (ms : List (String × Value)) : Members :=
  ms.foldl (fun sorted (key, value) => insert key value sorted) []

end Members

namespace Value

/-! ## Reading -/

/-- How deep the brackets of a value may be. -/
def maxDepth : Nat :=
  127

/-- Make the value of what is read. -/
def handler : Handler String Value where
  null := .null
  boolean := .boolean
  number := return .number (← Number.read)
  text := return .text (← Text.body Text.character)
  key := Text.body Text.character
  array := .array
  object ms := .object (Members.ofList ms)

/-- A value. -/
def read : Reader Value :=
  handler.value maxDepth

/-- The value of a document. -/
def parse (document : String) : Except Error Value :=
  Reader.document read document

/-! ## Writing -/

mutual

/-- A value without blanks. -/
def chars : Value → List Char
  | .null => ['n', 'u', 'l', 'l']
  | .boolean true => ['t', 'r', 'u', 'e']
  | .boolean false => ['f', 'a', 'l', 's', 'e']
  | .number n => n.text.toList
  | .text s => (Text.write s).toList
  | .array xs => '[' :: itemChars xs ++ [']']
  | .object ms => '\x7b' :: memberChars ms ++ ['\x7d']

/-- The items of an array, with commas between them. -/
def itemChars : List Value → List Char
  | [] => []
  | [x] => chars x
  | x :: rest => chars x ++ ',' :: itemChars rest

/-- The members of an object, with commas between them. -/
def memberChars : List (String × Value) → List Char
  | [] => []
  | [(k, v)] => (Text.write k).toList ++ ':' :: chars v
  | (k, v) :: rest => (Text.write k).toList ++ ':' :: chars v ++ ',' :: memberChars rest

end

/-- The text of a value. -/
def write (v : Value) : String :=
  String.ofList (chars v)

end Value

/-! ## Passing over values -/

/-- Make nothing of what is read. -/
def skipHandler : Handler Unit Unit where
  null := ()
  boolean _ := ()
  number := do
    let _ ← Numeral.read .malformed
  text := do
    let _ ← Text.body Text.anyUnit
  key := do
    let _ ← Text.body Text.anyUnit
  array _ := ()
  object _ := ()

/-- Pass over a value, however deep it is. A document has no more brackets
than characters. -/
def skipValue : Reader Unit := do
  skipHandler.value (← get).length

end TextTemplate.Json
