/-
TextTemplate.Decimal.Layout — digits written out, with a point in their
midst or with an exponent behind them.

A number whose first digit has a moderate power of ten is written with its
point where it belongs and at least one digit on either side. Any other is
written as one digit, the rest behind a point if there is a rest, and a
signed exponent.
-/
import TextTemplate.Decimal.Shortest

namespace TextTemplate.Decimal

/-- The powers of ten of a first digit that are written out. -/
structure Layout where
  least : Int
  greatest : Int
  deriving DecidableEq, Repr

/-- As many zeros. -/
def zeros (n : Nat) : List Char :=
  List.replicate n '0'

/-- Digits around a point. -/
def positional (digits : List Char) (exponent : Int) : List Char :=
  let leading := exponent + digits.length - 1
  if 0 ≤ exponent then
    digits ++ zeros exponent.toNat ++ ['.', '0']
  else if 0 ≤ leading then
    digits.take (leading + 1).toNat ++ '.' :: digits.drop (leading + 1).toNat
  else
    '0' :: '.' :: zeros (-leading - 1).toNat ++ digits

/-- Digits and an exponent. -/
def scientific (digits : List Char) (exponent : Int) : List Char :=
  let leading := exponent + digits.length - 1
  let sign := if leading < 0 then '-' else '+'
  let mantissa := match digits with
    | first :: second :: rest => first :: '.' :: second :: rest
    | _ => digits
  mantissa ++ 'e' :: sign :: Nat.toDigits 10 leading.natAbs

/-- A number without a sign. -/
def Layout.unsigned (layout : Layout) (d : Decimal) : List Char :=
  let digits := Nat.toDigits 10 d.digits
  let leading := d.exponent + digits.length - 1
  if layout.least ≤ leading ∧ leading ≤ layout.greatest then
    positional digits d.exponent
  else
    scientific digits d.exponent

/-- A finite double in its shortest digits. Zero keeps its sign. -/
def Layout.write (layout : Layout) (x : Float) : String :=
  let b := Binary.ofFloat x
  let text := layout.unsigned (shortest b)
  String.ofList (if b.negative then '-' :: text else text)

end TextTemplate.Decimal
