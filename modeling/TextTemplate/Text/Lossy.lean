/-
TextTemplate.Text.Lossy — text from bytes that need not be UTF-8.

Bytes that are no text come out as U+FFFD, one for each longest stretch
that some character begins with: a character cut short is one replacement
however many of its bytes are there, and a byte that no character begins
with is one of its own. `lead` says what a first byte announces; the range
for the second byte is what keeps out overlong forms, surrogates and
everything past U+10FFFF, and after it any continuation byte will do.
-/
namespace TextTemplate.Lossy

/-- What stands for bytes that are no text. -/
def replacement : Char :=
  '\ufffd'

/-- A character of which some bytes are read. -/
structure Pending where
  /-- The bits read so far. -/
  code : Nat
  /-- How many bytes are still to come, less one. -/
  left : Nat
  /-- The range of the next byte. -/
  low : UInt8
  high : UInt8
  deriving DecidableEq, Repr

/-- What a first byte is. -/
inductive Lead where
  | whole (c : Char)
  | opens (p : Pending)
  | stray
  deriving DecidableEq, Repr

def lead (b : UInt8) : Lead :=
  if b < 0x80 then .whole (Char.ofUInt8 b)
  else if b < 0xc2 then .stray
  else if b < 0xe0 then .opens ⟨b.toNat - 0xc0, 0, 0x80, 0xbf⟩
  else if b < 0xf0 then
    .opens ⟨b.toNat - 0xe0, 1, if b = 0xe0 then 0xa0 else 0x80, if b = 0xed then 0x9f else 0xbf⟩
  else if b < 0xf5 then
    .opens ⟨b.toNat - 0xf0, 2, if b = 0xf0 then 0x90 else 0x80, if b = 0xf4 then 0x8f else 0xbf⟩
  else .stray

/-- The bits after one more byte. -/
def Pending.extend (p : Pending) (b : UInt8) : Nat :=
  p.code * 64 + (b.toNat - 0x80)

/-- The text of bytes behind a character begun, if one is. -/
def decodeFrom : Option Pending → List UInt8 → List Char
  | none, [] => []
  | some _, [] => [replacement]
  | none, b :: rest =>
    match lead b with
    | .whole c => c :: decodeFrom none rest
    | .opens p => decodeFrom (some p) rest
    | .stray => replacement :: decodeFrom none rest
  | some p, b :: rest =>
    if p.low ≤ b ∧ b ≤ p.high then
      match p.left with
      | 0 => Char.ofNat (p.extend b) :: decodeFrom none rest
      | left + 1 => decodeFrom (some ⟨p.extend b, left, 0x80, 0xbf⟩) rest
    else
      replacement :: match lead b with
        | .whole c => c :: decodeFrom none rest
        | .opens q => decodeFrom (some q) rest
        | .stray => replacement :: decodeFrom none rest

/-- The text of bytes, with what is no text replaced. -/
def decode (bytes : List UInt8) : String :=
  String.ofList (decodeFrom none bytes)

end TextTemplate.Lossy
