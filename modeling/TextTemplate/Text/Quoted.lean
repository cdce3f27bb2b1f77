/-
TextTemplate.Text.Quoted — a text in quotes for a reader of messages, with
everything that could not be seen spelled out.

Quotes and backslashes take a backslash, four controls have letters of
their own, and any other character that is not shown as itself stands as
its code in hexadecimal, in braces behind a `u`.
-/
import TextTemplate.Text.Printable

namespace TextTemplate.Quoted

/-- A character as it stands in quotes. -/
def writeChar (c : Char) : List Char :=
  match c with
  | '\x00' => ['\\', '0']
  | '\t' => ['\\', 't']
  | '\n' => ['\\', 'n']
  | '\r' => ['\\', 'r']
  | '"' => ['\\', '"']
  | '\\' => ['\\', '\\']
  | c =>
    if isPrintable c then [c]
    else ['\\', 'u', '\x7b'] ++ Nat.toDigits 16 c.toNat ++ ['\x7d']

/-- A text in quotes. -/
def write (text : String) : String :=
  String.ofList ('"' :: text.toList.flatMap writeChar ++ ['"'])

end TextTemplate.Quoted
