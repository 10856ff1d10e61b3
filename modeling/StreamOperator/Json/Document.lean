/-! JSON text as a tree. A document keeps what the text says and nothing more: members stand
in the order written, a name may be repeated, and a number is its numeral. A string whose
escapes leave half of a surrogate pair names no text; its content is `none`. -/

namespace StreamOperator.Json

/-- A number as written: a sign, a whole part without leading zeros, the digits that follow the
point, and the exponent. No point is written where the fraction has no digits. -/
structure Numeral where
  negative : Bool
  whole : Nat
  fraction : List Char
  exponent : Option Int
deriving DecidableEq

inductive Document
  | null
  | boolean (value : Bool)
  | number (value : Numeral)
  | text (content : Option String)
  | array (items : List Document)
  | object (members : List (Option String × Document))

namespace Numeral

def ofNat (n : Nat) : Numeral := ⟨false, n, [], none⟩

def ofInt (n : Int) : Numeral := ⟨n < 0, n.natAbs, [], none⟩

/-- The integer that a numeral spells: neither a fraction nor an exponent is written, and no
sign stands before a zero. -/
def toInt? (n : Numeral) : Option Int :=
  match n with
  | ⟨negative, whole, [], none⟩ =>
    if negative then
      if whole = 0 then none else some (-(whole : Int))
    else some whole
  | _ => none

theorem toInt?_ofNat (n : Nat) : (ofNat n).toInt? = some (n : Int) := by
  simp [ofNat, toInt?]

theorem toInt?_ofInt (n : Int) : (ofInt n).toInt? = some n := by
  unfold ofInt toInt?
  by_cases h : n < 0
  · have nonzero : n.natAbs ≠ 0 := by omega
    have value : -(n.natAbs : Int) = n := by omega
    simp only [h, decide_true, if_true, nonzero, if_false, value]
  · have value : (n.natAbs : Int) = n := by omega
    simp only [h, decide_false, Bool.false_eq_true, if_false, value]

end Numeral

namespace Document

def ofString (s : String) : Document := .text (some s)

def ofNat (n : Nat) : Document := .number (.ofNat n)

def ofInt (n : Int) : Document := .number (.ofInt n)

def record (members : List (String × Document)) : Document :=
  .object (members.map fun (name, d) => (some name, d))

end Document

end StreamOperator.Json
