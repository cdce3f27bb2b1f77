/-
TextTemplate.Json.Numeral — the written form of a number.

A numeral is read by its grammar alone; what number it stands for comes
later, and numbers that are passed over have none. The only thing a caller
chooses is what the end of the document in the midst of a numeral is:
`atEnd`.
-/
import TextTemplate.Json.Reader

namespace TextTemplate.Json

/-- A number as it is written. -/
structure Numeral where
  negative : Bool
  whole : List Nat
  /-- The digits behind the point. There are some where there is a point. -/
  fraction : List Nat
  exponent : Option Int
  deriving DecidableEq, Repr

namespace Numeral

open Reader

/-- The value of a digit. -/
def digit (c : Char) : Nat :=
  c.toNat - '0'.toNat

/-- The number digits stand for. -/
def ofDigits (digits : List Nat) : Nat :=
  digits.foldl (fun n d => n * 10 + d) 0

/-- All the digits there are. -/
def digits : Reader (List Nat) := do
  return (← takeWhile Char.isDigit).map digit

/-- All the digits there are, and there has to be one. -/
def someDigits (atEnd : Error) : Reader (List Nat) := do
  match ← peek with
  | none => throw atEnd
  | some c => if c.isDigit then digits else throw .malformed

/-- The digits before the point: a zero alone, or digits that begin with
another. -/
def wholePart (atEnd : Error) : Reader (List Nat) := do
  let ds ← someDigits atEnd
  match ds with
  | 0 :: _ :: _ => throw .malformed
  | _ => return ds

/-- The digits behind the point, if there is a point. -/
def fractionPart (atEnd : Error) : Reader (List Nat) := do
  if (← peek) = some '.' then
    skip
    someDigits atEnd
  else
    return []

/-- The sign and digits of an exponent, if there is one. -/
def exponentPart (atEnd : Error) : Reader (Option Int) := do
  let c ← peek
  if c = some 'e' ∨ c = some 'E' then
    skip
    let sign ← peek
    if sign = some '+' ∨ sign = some '-' then skip
    let n := ofDigits (← someDigits atEnd)
    return some (if sign = some '-' then -n else n)
  else
    return none

/-- A numeral. -/
def read (atEnd : Error) : Reader Numeral := do
  let negative := (← peek) = some '-'
  if negative then skip
  let whole ← wholePart atEnd
  let fraction ← fractionPart atEnd
  let exponent ← exponentPart atEnd
  return { negative, whole, fraction, exponent }

/-- Neither a point nor an exponent is written. -/
def isWhole (n : Numeral) : Bool :=
  n.fraction.isEmpty && n.exponent.isNone

end Numeral

end TextTemplate.Json
