/-
TextTemplate.Json.Text — the strings of JSON, read and written.

Reading is the same for a string that is wanted and for one that is passed
over, but for `\u` escapes: where the string is wanted they have to name a
character, alone or as a pair of surrogates, and where it is passed over
four hexadecimal digits are enough. That difference is the argument of
`body`.
-/
import TextTemplate.Json.Reader
import TextTemplate.Text.Lossy

namespace TextTemplate.Json.Text

open Reader

/-! ## Reading -/

/-- The value of a hexadecimal digit. -/
def hexDigit? (c : Char) : Option Nat :=
  if c.isDigit then some (c.toNat - '0'.toNat)
  else if 'a' ≤ c ∧ c ≤ 'f' then some (c.toNat - 'a'.toNat + 10)
  else if 'A' ≤ c ∧ c ≤ 'F' then some (c.toNat - 'A'.toNat + 10)
  else none

/-- Four hexadecimal digits. A document that has not even four bytes left
is too short for them, whatever they are. -/
def codeUnit : Reader Nat := do
  let cs ← get
  let field := cs.take 4
  if (String.ofList field).utf8ByteSize < 4 then throw .truncated
  match field.mapM hexDigit? with
  | some [a, b, c, d] =>
    set (cs.drop 4)
    return ((a * 16 + b) * 16 + c) * 16 + d
  | _ => throw .malformed

/-- The first code unit of a pair. -/
def isHigh (n : Nat) : Bool :=
  0xd800 ≤ n && n < 0xdc00

/-- The second code unit of a pair. -/
def isLow (n : Nat) : Bool :=
  0xdc00 ≤ n && n < 0xe000

/-- The character a `\u` escape names. A first code unit goes with a second
in an escape of its own. -/
def character : Reader Char := do
  let high ← codeUnit
  if isLow high then throw .malformed
  if isHigh high then
    expect '\\'
    expect 'u'
    let low ← codeUnit
    if isLow low then
      return Char.ofNat (0x10000 + (high - 0xd800) * 0x400 + (low - 0xdc00))
    else
      throw .malformed
  return Char.ofNat high

/-- Any code unit, of which nothing is kept. -/
def anyUnit : Reader Char := do
  let _ ← codeUnit
  return Lossy.replacement

/-- What stands behind a backslash. -/
def escape (unicode : Reader Char) : Reader Char := do
  match ← next with
  | '"' => return '"'
  | '\\' => return '\\'
  | '/' => return '/'
  | 'b' => return '\x08'
  | 'f' => return '\x0c'
  | 'n' => return '\n'
  | 'r' => return '\r'
  | 't' => return '\t'
  | 'u' => unicode
  | _ => throw .malformed

/-- One character of a string, or its end. -/
def bodyStep (unicode : Reader Char) (text : String) : Reader (String ⊕ String) := do
  match ← next with
  | '"' => return .inr text
  | '\\' => return .inl (text.push (← escape unicode))
  | c => if c < ' ' then throw .malformed else return .inl (text.push c)

/-- A string whose opening quote is taken off already. -/
def body (unicode : Reader Char) : Reader String :=
  iterate (bodyStep unicode) ""

/-! ## Writing -/

/-- A hexadecimal digit, in lower case. -/
def hexChar (n : Nat) : Char :=
  if n < 10 then Char.ofNat ('0'.toNat + n) else Char.ofNat ('a'.toNat + (n - 10))

/-- A character as it stands in a string. -/
def writeChar (c : Char) : List Char :=
  match c with
  | '"' => ['\\', '"']
  | '\\' => ['\\', '\\']
  | '\x08' => ['\\', 'b']
  | '\x0c' => ['\\', 'f']
  | '\n' => ['\\', 'n']
  | '\r' => ['\\', 'r']
  | '\t' => ['\\', 't']
  | c =>
    if c < ' ' then ['\\', 'u', '0', '0', hexChar (c.toNat / 16), hexChar (c.toNat % 16)]
    else [c]

/-- A text in quotes. -/
def write (text : String) : String :=
  String.ofList ('"' :: text.toList.flatMap writeChar ++ ['"'])

end TextTemplate.Json.Text
