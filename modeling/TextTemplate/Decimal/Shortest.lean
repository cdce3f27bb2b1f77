/-
TextTemplate.Decimal.Shortest — the fewest digits that read back as a
double, and of those the digits nearest to it.

For one digit, two digits and so on the double lies between two
neighbouring points of a decimal grid. The first grid of which one of the
two lies in the double's interval is the answer: a point further away lies
in the interval only if the neighbour on its side does. Of two points in
the interval the nearer is taken, and the even one in a tie. Seventeen
digits always suffice.
-/
import TextTemplate.Decimal.Binary

namespace TextTemplate

/-- `digits · 10 ^ exponent`. -/
structure Decimal where
  digits : Nat
  exponent : Int
  deriving DecidableEq, Repr

namespace Decimal

/-- The point of the grid of whole units to take for a value, if one of its
two neighbours there lies in its range. -/
def Interval.onGrid (i : Interval) : Option Nat :=
  let below := i.value / i.denominator
  let above := below + 1
  let twice := 2 * i.value
  let middle := (below + above) * i.denominator
  match i.holds below, i.holds above with
  | true, true =>
    if twice < middle || (twice = middle && below % 2 = 0) then some below else some above
  | true, false => some below
  | false, true => some above
  | false, false => none

/-- How far the point is moved to the right to tell how large a double is:
no double but zero is below `10 ^ -400`. -/
def leadingShift : Nat :=
  400

/-- The power of ten of a value's first digit. -/
def Interval.leading (i : Interval) : Int :=
  let shifted := i.value * Nat.pow 10 leadingShift / i.denominator
  ((Nat.toDigits 10 shifted).length : Int) - 1 - leadingShift

/-- The same number without zeros at the end. -/
def trim (d : Decimal) : Decimal :=
  if 0 < d.digits ∧ d.digits % 10 = 0 then trim ⟨d.digits / 10, d.exponent + 1⟩ else d
termination_by d.digits
decreasing_by omega

/-- The most digits a double needs. -/
def maxDigits : Nat :=
  17

/-- The shortest digits of a double, its sign aside. -/
def shortest (b : Binary) : Decimal :=
  if b.mantissa = 0 then
    ⟨0, 0⟩
  else
    let i := b.interval
    let leading := i.leading
    let found := (List.range maxDigits).findSome? fun (more : Nat) =>
      let exponent := leading - more
      (i.inUnits exponent).onGrid.map fun digits => trim ⟨digits, exponent⟩
    found.getD ⟨0, 0⟩

end Decimal

end TextTemplate
