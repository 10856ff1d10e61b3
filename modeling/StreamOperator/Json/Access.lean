import StreamOperator.Json.Fields
import StreamOperator.Json.Value

/-! Looking into a value whose shape is known. What is not there reads as null, as zero, as the
empty text or as no items. -/

namespace StreamOperator.Json

instance : Encode Value := ⟨Value.toDocument⟩

instance : Decode Value := ⟨Value.ofDocument?⟩

namespace Value

def field? (v : Value) (name : String) : Option Value :=
  match v with
  | .object ms => ms.lookup name
  | _ => none

def field (v : Value) (name : String) : Value := (v.field? name).getD .null

def isNull : Value → Bool
  | .null => true
  | _ => false

def given? (v : Value) (name : String) : Option Value :=
  (v.field? name).filter fun w => !w.isNull

def items : Value → List Value
  | .array vs => vs
  | _ => []

def item (v : Value) (index : Nat) : Value := (v.items[index]?).getD .null

def members : Value → List (String × Value)
  | .object ms => ms
  | _ => []

def string : Value → String
  | .text s => s
  | _ => ""

def isTrue : Value → Bool
  | .boolean b => b
  | _ => false

/-- An integer; a double reads as zero. -/
def int : Value → Int
  | .number (.natural n) => n.toNat
  | .number (.negative n) => n.toInt
  | _ => 0

def nat (v : Value) : Nat := v.int.toNat

/-- The value of an integer that fits a word. -/
def ofInt (n : Int) : Value :=
  .number (if n < 0 then .negative (.ofInt n) else .natural (.ofNat n.toNat))

def ofNat (n : Nat) : Value := ofInt n

def ofList {α : Type} (f : α → Value) (as : List α) : Value := .array (as.map f)

def ofOption {α : Type} (f : α → Value) : Option α → Value
  | some a => f a
  | none => .null

end Value

end StreamOperator.Json
