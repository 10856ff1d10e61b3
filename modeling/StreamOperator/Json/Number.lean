import StreamOperator.Decimal.Shortest
import StreamOperator.Json.Document

/-! Numbers of a JSON value: a 64-bit word, a negative signed word, or a double. A double is
written with the fewest digits that read back, positionally from 10^-5 up to 10^16 and with an
exponent elsewhere; it always shows a point or an exponent.

Reading keeps a numeral's leading digits in a 64-bit word as long as they fit, and scales the word
by one power of ten. The result may differ from the nearest double in the last place. -/

namespace StreamOperator.Json

inductive Number
  | natural (n : UInt64)
  | negative (n : Int64)
  | double (f : Float)

namespace Numeral

/-- The layout of a decimal of `digits.length` digits that stands for a double. -/
def ofDigits (negative : Bool) (digits : List Char) (exponent : Int) : Numeral :=
  let scale : Int := digits.length + exponent
  if 0 ≤ exponent ∧ scale ≤ 16 then
    ⟨negative, Nat.ofDigitChars 10 digits 0 * Nat.pow 10 exponent.toNat, ['0'], none⟩
  else if 0 < scale ∧ scale ≤ 16 then
    ⟨negative, Nat.ofDigitChars 10 (digits.take scale.toNat) 0, digits.drop scale.toNat, none⟩
  else if -5 < scale ∧ scale ≤ 0 then
    ⟨negative, 0, List.replicate (-scale).toNat '0' ++ digits, none⟩
  else
    ⟨negative, Nat.ofDigitChars 10 (digits.take 1) 0, digits.drop 1, some (scale - 1)⟩

/-- The numeral of a double, none for an infinity or a value that is not a number. -/
def ofFloat? (f : Float) : Option Numeral :=
  (Decimal.binaryParts? f).map fun (negative, m, q) =>
    if m = 0 then ⟨negative, 0, ['0'], none⟩
    else
      let d := Decimal.shortest m q
      ofDigits negative (Nat.toDigits 10 d.digits) d.exponent

def wordLimit : Nat := 18446744073709551616

/-- Takes digits into a word while they fit, and counts those taken. -/
def takeDigits (word : Nat) : List Char → Nat × Nat
  | [] => (word, 0)
  | c :: cs =>
    let next := word * 10 + (c.toNat - '0'.toNat)
    if next < wordLimit then
      let (w, taken) := takeDigits next cs
      (w, taken + 1)
    else (word, 0)

/-- Greatest power of ten that is scaled by in one step. -/
def greatestPower : Nat := 308

/-- Scales by a power of ten. None when the result exceeds every double. -/
def scale? : Nat → Float → Int → Option Float
  | 0, f, _ => some f
  | fuel + 1, f, exponent =>
    if exponent.natAbs ≤ greatestPower then
      let power := Float.ofScientific 1 false exponent.natAbs
      if 0 ≤ exponent then
        let scaled := f * power
        if scaled.isInf then none else some scaled
      else some (f / power)
    else if f == 0 then some f
    else if 0 ≤ exponent then none
    else scale? fuel (f / Float.ofScientific 1 false greatestPower) (exponent + greatestPower)

/-- Exponents past this one are not added up. -/
def exponentLimit : Int := 2147483647

/-- The double that a numeral reads as, none when it exceeds every double. -/
def toFloat? (n : Numeral) : Option Float :=
  let whole := Nat.toDigits 10 n.whole
  let (word, taken) := takeDigits 0 whole
  let dropped := whole.length - taken
  let (word, decimals) := takeDigits word n.fraction
  let written := n.exponent.getD 0
  let sign (f : Float) : Float := if n.negative then -f else f
  if written.natAbs > exponentLimit.toNat then
    if word ≠ 0 ∧ written > 0 then none else some (sign 0)
  else
    let exponent := max (-exponentLimit - 1)
      (min exponentLimit ((dropped : Int) - (decimals : Int) + written))
    (scale? (exponent.natAbs + 1) (UInt64.ofNat word).toFloat exponent).map sign

end Numeral

namespace Number

/-- An integer that fits a word stays one; all else is a double. The negative zero is a double,
and so is a negative integer below the signed range. -/
def ofNumeral? (n : Numeral) : Option Number :=
  if n.fraction = [] ∧ n.exponent = none ∧ n.whole < Numeral.wordLimit then
    if ¬ n.negative then some (.natural (UInt64.ofNat n.whole))
    else if n.whole = 0 ∨ n.whole > 9223372036854775808 then
      some (.double (-(UInt64.ofNat n.whole).toFloat))
    else some (.negative (Int64.ofInt (-n.whole)))
  else n.toFloat?.map .double

/-- A double that is no number is written as null. -/
def toDocument : Number → Document
  | natural n => .ofNat n.toNat
  | negative n => .ofInt n.toInt
  | double f =>
    match Numeral.ofFloat? f with
    | some n => .number n
    | none => .null

end Number

end StreamOperator.Json
