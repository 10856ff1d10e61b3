/-! The shortest decimal that reads back as a given binary fraction. The numbers that round to
`m * 2 ^ q` form an interval, whose ends belong to it when `m` is even. For one, two, up to
seventeen digits the two decimals around the value are tried; the first grid with one inside the
interval wins, and of two the nearer one, the even one at equal distance. -/

namespace StreamOperator

/-- The number `digits * 10 ^ exponent`. -/
structure Decimal where
  digits : Nat
  exponent : Int
deriving DecidableEq

namespace Decimal

/-- How many significands the doubles of one exponent have. -/
def significands : Nat := 4503599627370496

/-- A positive fraction with the bounds of the numbers that round to it, over one denominator. -/
structure Rounding where
  low : Nat
  value : Nat
  high : Nat
  denominator : Nat
  closed : Bool

def width (n : Nat) : Nat := if n = 0 then 0 else (Nat.toDigits 10 n).length

namespace Rounding

/-- The numbers that round to `m * 2 ^ q`, in quarters of the last place. Below a power of two
the next number is half as far away, unless it is the least normal one. -/
def ofBinary (m : Nat) (q : Int) : Rounding :=
  let up := Nat.pow 2 q.toNat
  let below := if m = significands ∧ q > -1074 then 1 else 2
  { low := (4 * m - below) * up
    value := 4 * m * up
    high := (4 * m + 2) * up
    denominator := 4 * Nat.pow 2 (-q).toNat
    closed := m % 2 == 0 }

/-- The power of ten just above the value: `10 ^ (k - 1) ≤ value < 10 ^ k`. -/
def magnitude (r : Rounding) : Int :=
  if r.denominator ≤ r.value then width (r.value / r.denominator)
  else 1 - (width ((r.denominator + r.value - 1) / r.value - 1) : Int)

/-- Whether `c * 10 ^ p` rounds to the value. -/
def holds (r : Rounding) (c : Nat) (p : Int) : Bool :=
  let x := c * Nat.pow 10 p.toNat * r.denominator
  let s := Nat.pow 10 (-p).toNat
  if r.closed then r.low * s ≤ x && x ≤ r.high * s
  else r.low * s < x && x < r.high * s

/-- Whether `(c + 1) * 10 ^ p` is nearer than `c * 10 ^ p`, which lies at or below the value. -/
def prefersNext (r : Rounding) (c : Nat) (p : Int) : Bool :=
  let x := c * Nat.pow 10 p.toNat * r.denominator
  let y := (c + 1) * Nat.pow 10 p.toNat * r.denominator
  let v := r.value * Nat.pow 10 (-p).toNat
  y - v < v - x || (y - v == v - x && c % 2 == 1)

/-- The decimal with `n` digits that reads back, if there is one. -/
def onGrid? (r : Rounding) (n : Nat) : Option Decimal :=
  let p := r.magnitude - n
  let c := r.value * Nat.pow 10 (-p).toNat / (r.denominator * Nat.pow 10 p.toNat)
  match r.holds c p, r.holds (c + 1) p with
  | true, true => some ⟨if r.prefersNext c p then c + 1 else c, p⟩
  | true, false => some ⟨c, p⟩
  | false, true => some ⟨c + 1, p⟩
  | false, false => none

end Rounding

/-- Drops zeros at the end of the digits, at most `fuel` of them. -/
def strip : Nat → Decimal → Decimal
  | 0, d => d
  | fuel + 1, d =>
    if d.digits ≠ 0 ∧ d.digits % 10 = 0 then strip fuel ⟨d.digits / 10, d.exponent + 1⟩ else d

/-- Seventeen digits tell every double apart, so the search ends. -/
def shortest (m : Nat) (q : Int) : Decimal :=
  let r := Rounding.ofBinary m q
  strip 17 (((List.range 17).findSome? fun i => r.onGrid? (i + 1)).getD ⟨m, q⟩)

/-- A double that is a number, as sign, significand and binary exponent. -/
def binaryParts? (f : Float) : Option (Bool × Nat × Int) :=
  let bits : Nat := f.toBits.toNat
  let negative := bits / 9223372036854775808 == 1
  let biased : Nat := bits / significands % 2048
  let low := bits % significands
  if biased = 2047 then none
  else if biased = 0 then some (negative, low, -1074)
  else some (negative, significands + low, (biased : Int) - 1075)

end Decimal

end StreamOperator
