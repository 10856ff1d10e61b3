import StreamOperator.Json.Number
import StreamOperator.Json.Printer
import StreamOperator.Json.Reader

/-! JSON values. The members of an object are kept in the order of their names, one for each
name; of several written under one name the last stays. Arrays and objects nest at most 127
deep. -/

namespace StreamOperator.Json

inductive Value
  | null
  | boolean (value : Bool)
  | number (value : Number)
  | text (content : String)
  | array (items : List Value)
  | object (members : List (String × Value))

namespace Value

instance : Inhabited Value := ⟨null⟩

/-- Puts a member in its place, over one of the same name. -/
def insertMember (name : String) (v : Value) : List (String × Value) → List (String × Value)
  | [] => [(name, v)]
  | (n, w) :: ms =>
    match compare name n with
    | .lt => (name, v) :: (n, w) :: ms
    | .eq => (name, v) :: ms
    | .gt => (n, w) :: insertMember name v ms

def ofMembers (ms : List (String × Value)) : Value :=
  .object (ms.foldl (fun acc (name, v) => insertMember name v acc) [])

def maxDepth : Nat := 127

/-- Reads a value whose brackets nest at most `depth` deep. -/
def ofDocumentWithin? : Nat → Document → Option Value
  | _, .null => some .null
  | _, .boolean b => some (.boolean b)
  | _, .number n => (Number.ofNumeral? n).map .number
  | _, .text content => content.map .text
  | 0, .array _ => none
  | depth + 1, .array ds => (ds.mapM (ofDocumentWithin? depth)).map .array
  | 0, .object _ => none
  | depth + 1, .object ms => do
    let members ← ms.mapM fun (name, d) => do
      let name ← name
      let v ← ofDocumentWithin? depth d
      some (name, v)
    some (ofMembers members)

def ofDocument? (d : Document) : Option Value := ofDocumentWithin? maxDepth d

mutual

def toDocument : Value → Document
  | .null => .null
  | .boolean b => .boolean b
  | .number n => n.toDocument
  | .text s => .ofString s
  | .array vs => .array (itemDocuments vs)
  | .object ms => .object (memberDocuments ms)

def itemDocuments : List Value → List Document
  | [] => []
  | v :: vs => v.toDocument :: itemDocuments vs

def memberDocuments : List (String × Value) → List (Option String × Document)
  | [] => []
  | (name, v) :: ms => (some name, v.toDocument) :: memberDocuments ms

end

def ofInt64 (n : Int64) : Value :=
  .number (if n < 0 then .negative n else .natural n.toUInt64)

def ofText? (s : String) : Option Value := (Document.ofText? s).bind ofDocument?

def ofBytes? (bytes : Bytes) : Option Value := (Document.ofBytes? bytes).bind ofDocument?

def toText (v : Value) : String := v.toDocument.toText

end Value

end StreamOperator.Json
