import StreamOperator.Json.Printer
import StreamOperator.Json.Reader

/-! Typed data as documents. A record is an object, its fields found by name, or an array of its
fields in order. Unknown names are passed over and a known name may stand once. A case without
data is its name, or an object that gives null under the name; a case with data is an object with
that one member. Integers are written as integers within range; null fills no field. -/

namespace StreamOperator.Json

/-- A type with a form as a document. -/
class Encode (α : Type) where
  encode : α → Document

/-- A type that is read from documents. -/
class Decode (α : Type) where
  decode? : Document → Option α

export Encode (encode)
export Decode (decode?)

def encodeText {α : Type} [Encode α] (a : α) : String := (encode a).toText

def encodeBytes {α : Type} [Encode α] (a : α) : Bytes := Text.utf8 (encodeText a)

def decodeText? {α : Type} [Decode α] (s : String) : Option α := (Document.ofText? s).bind decode?

def decodeBytes? {α : Type} [Decode α] (bytes : Bytes) : Option α :=
  (Document.ofBytes? bytes).bind decode?

namespace Document

def toInt? : Document → Option Int
  | .number n => n.toInt?
  | _ => none

/-- An integer of the range from `low` to `high`. -/
def toIntWithin? (low high : Int) (d : Document) : Option Int :=
  d.toInt?.bind fun n => if low ≤ n ∧ n ≤ high then some n else none

/-- The fields of a record in the order of `names`, none for a field that is not given. -/
def fields? (names : List String) : Document → Option (List (Option Document))
  | .array ds =>
    if ds.length ≤ names.length then
      some (ds.map some ++ List.replicate (names.length - ds.length) none)
    else none
  | .object ms => do
    let given ← ms.mapM fun (name, d) => name.map (·, d)
    names.mapM fun name =>
      match given.filter (·.1 == name) with
      | [] => some none
      | [(_, d)] => some (some d)
      | _ => none
  | _ => none

/-- The name of a case and the data given with it. -/
def case? : Document → Option (String × Option Document)
  | .text (some name) => some (name, none)
  | .object [(some name, d)] => some (name, some d)
  | _ => none

/-- Whether the data of a case is that of a case without data. -/
def isBare : Option Document → Bool
  | none => true
  | some .null => true
  | some _ => false

def bareCase? {α : Type} (cases : List (String × α)) (d : Document) : Option α := do
  let (name, data) ← d.case?
  if isBare data then cases.lookup name else none

end Document

instance : Encode Bool := ⟨.boolean⟩

instance : Decode Bool where
  decode?
    | .boolean b => some b
    | _ => none

instance : Encode String := ⟨.ofString⟩

instance : Decode String where
  decode?
    | .text content => content
    | _ => none

instance : Encode UInt8 := ⟨fun n => .ofNat n.toNat⟩

instance : Decode UInt8 := ⟨fun d => (d.toIntWithin? 0 255).map fun n => .ofNat n.toNat⟩

instance : Encode UInt64 := ⟨fun n => .ofNat n.toNat⟩

instance : Decode UInt64 :=
  ⟨fun d => (d.toIntWithin? 0 18446744073709551615).map fun n => .ofNat n.toNat⟩

instance : Encode Int64 := ⟨fun n => .ofInt n.toInt⟩

instance : Decode Int64 :=
  ⟨fun d => (d.toIntWithin? Int64.minValue.toInt Int64.maxValue.toInt).map Int64.ofInt⟩

instance {α : Type} [Encode α] : Encode (List α) := ⟨fun as => .array (as.map encode)⟩

instance {α : Type} [Decode α] : Decode (List α) where
  decode?
    | .array ds => ds.mapM decode?
    | _ => none

instance {α β : Type} [Encode α] [Encode β] : Encode (α × β) :=
  ⟨fun (a, b) => .array [encode a, encode b]⟩

instance {α β : Type} [Decode α] [Decode β] : Decode (α × β) where
  decode?
    | .array [a, b] => do some (← decode? a, ← decode? b)
    | _ => none

end StreamOperator.Json
