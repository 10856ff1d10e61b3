import Std.Data.ExtTreeMap
import StreamOperator.Key.SipHash
import StreamOperator.Text.Quoted
import StreamOperator.Text.Utf8

/-! Keys known by their encoding. Two keys are equal when their bytes are, and are ordered as their
bytes; a key's hash and its shard follow from the bytes alone. -/

namespace StreamOperator

structure EncodedKey where
  bytes : Bytes
deriving DecidableEq

namespace EncodedKey

instance : Ord EncodedKey := ⟨compareOn bytes⟩

instance : Std.TransOrd EncodedKey := inferInstanceAs (Std.TransCmp (compareOn bytes))

instance : Std.LawfulEqOrd EncodedKey where
  eq_of_compare {a b} h := by
    have : a.bytes = b.bytes := Std.LawfulEqOrd.eq_of_compare (α := List UInt8) h
    cases a; cases b; cases this; rfl

def ofText (s : String) : EncodedKey := ⟨Text.utf8 s⟩

/-- Hash of the length, as eight bytes, and then the bytes. -/
def hash (k : EncodedKey) : UInt64 :=
  SipHash.hash (SipHash.wordBytes (UInt64.ofNat k.bytes.length) ++ k.bytes)

/-- The shard a key belongs to, of at least one. -/
def shard (k : EncodedKey) (shards : UInt32) : UInt32 :=
  (k.hash % (max shards 1).toUInt64).toUInt32

def text (k : EncodedKey) : String :=
  "StructuralKey(" ++ Text.quoteBytes k.bytes ++ ")"

end EncodedKey

end StreamOperator
