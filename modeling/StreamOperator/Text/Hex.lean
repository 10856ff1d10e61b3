import StreamOperator.Text.Utf8

/-! Bytes as hexadecimal text, two lower-case digits for each. -/

namespace StreamOperator.Text

def hexByte (b : UInt8) : String :=
  String.ofList [Nat.digitChar (b.toNat / 16), Nat.digitChar (b.toNat % 16)]

def hex (bytes : Bytes) : String := String.join (bytes.map hexByte)

def hexValue? (c : Char) : Option Nat :=
  if '0' ≤ c ∧ c ≤ '9' then some (c.toNat - '0'.toNat)
  else if 'a' ≤ c ∧ c ≤ 'f' then some (c.toNat - 'a'.toNat + 10)
  else if 'A' ≤ c ∧ c ≤ 'F' then some (c.toNat - 'A'.toNat + 10)
  else none

/-- The bytes that pairs of hexadecimal digits stand for; a last digit without a partner stands for
none. -/
def ofHexChars? : List Char → Option Bytes
  | [] => some []
  | a :: b :: cs => do
    let high ← hexValue? a
    let low ← hexValue? b
    let rest ← ofHexChars? cs
    some (UInt8.ofNat (high * 16 + low) :: rest)
  | [_] => some []

def ofHex? (s : String) : Option Bytes := ofHexChars? s.toList

end StreamOperator.Text
