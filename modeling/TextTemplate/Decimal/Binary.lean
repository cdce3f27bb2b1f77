/-
TextTemplate.Decimal.Binary — what a double stands for, as exact whole
numbers.

A finite double is `mantissa · 2 ^ exponent` with a sign. The reals that
round to it are those up to half the distance to its neighbours; the ends
belong to them exactly when the mantissa is even, since a tie is rounded to
the even neighbour. `Binary.interval` gives the ends and the double itself
over one denominator, so that everything after it is arithmetic on `Nat`.
-/
namespace TextTemplate.Decimal

/-- `± mantissa · 2 ^ exponent`. -/
structure Binary where
  negative : Bool
  mantissa : Nat
  exponent : Int
  /-- The neighbour below is half as far away as the one above, as it is
  where the exponent of the doubles changes. -/
  narrowBelow : Bool
  deriving DecidableEq, Repr

/-- The parts of a finite double. -/
def Binary.ofFloat (x : Float) : Binary :=
  let bits := x.toBits.toNat
  let fraction := bits % Nat.pow 2 52
  let scale := bits / Nat.pow 2 52 % Nat.pow 2 11
  { negative := bits / Nat.pow 2 63 == 1
    mantissa := if scale = 0 then fraction else Nat.pow 2 52 + fraction
    exponent := if scale = 0 then -1074 else (scale : Int) - 1075
    narrowBelow := fraction = 0 && 1 < scale }

/-- A value with the ends of a range about it, all over one denominator. -/
structure Interval where
  low : Nat
  value : Nat
  high : Nat
  denominator : Nat
  /-- The ends are in the range. -/
  closed : Bool
  deriving DecidableEq, Repr

/-- The reals that round to a double, its sign aside. -/
def Binary.interval (b : Binary) : Interval :=
  let quarter := b.exponent - 2
  let up := Nat.pow 2 quarter.toNat
  { low := (4 * b.mantissa - if b.narrowBelow then 1 else 2) * up
    value := 4 * b.mantissa * up
    high := (4 * b.mantissa + 2) * up
    denominator := Nat.pow 2 (-quarter).toNat
    closed := b.mantissa % 2 = 0 }

namespace Interval

/-- The same range in units of `10 ^ exponent`. -/
def inUnits (i : Interval) (exponent : Int) : Interval :=
  let up := Nat.pow 10 (-exponent).toNat
  { i with
    low := i.low * up
    value := i.value * up
    high := i.high * up
    denominator := i.denominator * Nat.pow 10 exponent.toNat }

/-- A whole number of units lies in the range. -/
def holds (i : Interval) (n : Nat) : Bool :=
  if i.closed then i.low ≤ n * i.denominator && n * i.denominator ≤ i.high
  else i.low < n * i.denominator && n * i.denominator < i.high

end Interval

end TextTemplate.Decimal
