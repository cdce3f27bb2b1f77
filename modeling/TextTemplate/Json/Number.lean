/-
TextTemplate.Json.Number — the number a numeral stands for, and its text.

Whole numbers that fit 64 bits are kept exactly. Every other number is a
double, found from a significand of 64 bits and a power of ten:

* the significand takes digits from the left as long as they fit. Digits
  before the point that do not fit raise the exponent by one each; digits
  behind it go on being taken while they fit and the rest is dropped;
* the power of ten is a double of its own, by which the significand is
  multiplied or divided once. Powers past `10 ^ 308` are divided out in
  steps, and a number too large for a double is refused.
-/
import TextTemplate.Decimal.Layout
import TextTemplate.Json.Numeral

namespace TextTemplate.Json

inductive Number where
  | whole (n : Int)
  | double (x : Float)

namespace Number

/-! ## From a numeral -/

/-- Take digits into a significand while it fits 64 bits. Gives the
significand and how many digits are left. -/
def absorb : Nat → List Nat → Nat × Nat
  | significand, [] => (significand, 0)
  | significand, d :: rest =>
    if significand * 10 + d < Nat.pow 2 64 then absorb (significand * 10 + d) rest
    else (significand, rest.length + 1)

/-- The largest power of ten that is a double. -/
def maxPower : Nat :=
  308

/-- A power of ten, the nearest double. -/
def power (n : Nat) : Float :=
  Float.ofScientific 1 false n

/-- Divide by a power of ten. -/
def scaleDown (x : Float) (n : Nat) : Float :=
  if n ≤ maxPower then x / power n
  else if x == 0 then x
  else scaleDown (x / power maxPower) (n - maxPower)
termination_by n
decreasing_by simp only [maxPower] at *; omega

/-- A significand times a power of ten. None if it is too large. -/
def scale? (significand : Nat) (exponent : Int) : Option Float :=
  let x := significand.toUInt64.toFloat
  if exponent < 0 then
    some (scaleDown x exponent.natAbs)
  else if exponent.toNat ≤ maxPower then
    let y := x * power exponent.toNat
    if y.isInf then none else some y
  else if significand = 0 then
    some x
  else
    none

/-- The double a numeral stands for. -/
def double? (n : Numeral) : Option Float := do
  let (significand, beyond) := absorb 0 n.whole
  let (significand, dropped) := absorb significand n.fraction
  let taken := n.fraction.length - dropped
  let x ← scale? significand ((beyond : Int) - taken + n.exponent.getD 0)
  return if n.negative then -x else x

/-- The whole number a numeral stands for, if it is written as one and is
kept as one: zero with a sign is not. -/
def whole? (n : Numeral) : Option Int :=
  let magnitude := Numeral.ofDigits n.whole
  if !n.isWhole then none
  else if n.negative then
    if 0 < magnitude && magnitude ≤ Nat.pow 2 63 then some (-magnitude) else none
  else
    if magnitude < Nat.pow 2 64 then some magnitude else none

/-- The number a numeral stands for. -/
def ofNumeral? (n : Numeral) : Option Number :=
  match whole? n with
  | some k => some (.whole k)
  | none => (double? n).map .double

/-- A number. -/
def read : Reader Number := do
  match ofNumeral? (← Numeral.read .truncated) with
  | some n => return n
  | none => throw .malformed

/-! ## To text -/

/-- Doubles are written out from `0.00001` up to `10 ^ 16`. -/
def layout : Decimal.Layout :=
  ⟨-5, 15⟩

def text : Number → String
  | .whole n => toString n
  | .double x => layout.write x

end Number

end TextTemplate.Json
