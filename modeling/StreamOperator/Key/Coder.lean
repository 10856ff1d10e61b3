import StreamOperator.Error
import StreamOperator.Json.Fields
import StreamOperator.Key.Basic

/-! Coders turn keys into bytes. A coder may refuse a key; the failure names the key, the coder
and the cause. -/

namespace StreamOperator

open Json

/-- A type whose values can be shown in messages. -/
class Label (α : Type) where
  label : α → String

export Label (label)

instance : Label String := ⟨Text.quote⟩

structure Coder (κ : Type) where
  name : String
  encode : κ → Except CodecError Bytes

namespace Coder

variable {κ : Type}

def utf8 : Coder String := ⟨"Utf8Coder", fun s => .ok (Text.utf8 s)⟩

/-- Compact JSON of a document that may fail to exist. -/
def jsonOf (write : κ → Except JsonError Document) : Coder κ where
  name := "JsonCoder"
  encode k :=
    match write k with
    | .ok d => .ok (Text.utf8 d.toText)
    | .error cause => .error (.json cause)

def json [Encode κ] : Coder κ := jsonOf fun k => .ok (Json.encode k)

def key [Label κ] (c : Coder κ) (k : κ) : Except InternalError EncodedKey :=
  match c.encode k with
  | .ok bytes => .ok ⟨bytes⟩
  | .error cause => .error (.keyEncoding (label k) c.name cause)

end Coder

namespace Json.Document

/-- The name under which a document stands as a key. -/
def memberName? : Document → Option String
  | .text content => content
  | .number n => some (String.ofList n.print)
  | .boolean b => some (if b then "true" else "false")
  | _ => none

/-- An object from keys that are documents themselves; each key must have a name. -/
def ofMap (entries : List (Document × Document)) : Except JsonError Document := do
  let members ← entries.mapM fun (k, d) =>
    match k.memberName? with
    | some name => .ok (some name, d)
    | none => .error .nameNotText
  return .object members

end Json.Document

end StreamOperator
