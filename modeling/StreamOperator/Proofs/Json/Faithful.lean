import StreamOperator.Proofs.Json.RoundTrip
import StreamOperator.State.Address

/-! Types whose written form is read back, up to the addresses of state cells. -/

namespace StreamOperator

namespace Json

class Faithful (α : Type) [Encode α] [Decode α] : Prop where
  written (a : α) : (encode a).Written
  decode?_encode (a : α) : decode? (encode a) = some a

theorem decodeText?_encodeText {α : Type} [Encode α] [Decode α] [Faithful α] (a : α) :
    decodeText? (encodeText a) = some a := by
  rw [decodeText?, encodeText, Document.ofText?_toText (Faithful.written a), Option.bind_some,
    Faithful.decode?_encode]

namespace Document

theorem written_ofInt (n : Int) : (ofInt n).Written := .number (by simp [Numeral.ofInt])

theorem written_ofNat (n : Nat) : (ofNat n).Written := .number (by simp [Numeral.ofNat])

theorem toIntWithin?_ofInt {low high n : Int} (h : low ≤ n ∧ n ≤ high) :
    (ofInt n).toIntWithin? low high = some n := by
  simp [toIntWithin?, toInt?, ofInt, Numeral.toInt?_ofInt, h]

theorem toIntWithin?_ofNat {low high : Int} {n : Nat} (h : low ≤ n ∧ (n : Int) ≤ high) :
    (ofNat n).toIntWithin? low high = some (n : Int) := by
  simp [toIntWithin?, toInt?, ofNat, Numeral.toInt?_ofNat, h]

theorem fields?_record {ms : List (String × Document)} (h : (ms.map Prod.fst).Nodup) :
    (record ms).fields? (ms.map Prod.fst) = some (ms.map fun m => some m.2) := by
  rw [record, fields?, List.mapM_map_eq_some (g := id) ms fun _ _ => ?_, List.map_id]
  · apply List.mapM_map_eq_some
    intro m hm
    rw [List.filter_fst_eq_singleton h hm]
  · rfl

end Document

instance : Faithful String where
  written s := .text s
  decode?_encode _ := rfl

instance : Faithful UInt8 where
  written n := Document.written_ofNat n.toNat
  decode?_encode n := by
    have hn := n.toNat_lt
    change ((Document.ofNat n.toNat).toIntWithin? 0 255).map _ = _
    rw [Document.toIntWithin?_ofNat (by omega)]
    simp

instance : Faithful UInt64 where
  written n := Document.written_ofNat n.toNat
  decode?_encode n := by
    have hn := n.toNat_lt
    change ((Document.ofNat n.toNat).toIntWithin? 0 18446744073709551615).map _ = _
    rw [Document.toIntWithin?_ofNat (by omega)]
    simp

instance : Faithful Bool where
  written b := .boolean b
  decode?_encode _ := rfl

instance : Faithful Int64 where
  written n := Document.written_ofInt n.toInt
  decode?_encode n := by
    have hlow : Int64.minValue.toInt ≤ n.toInt := Int64.le_toInt n
    have hhigh : n.toInt ≤ Int64.maxValue.toInt := Int64.toInt_le n
    change ((Document.ofInt n.toInt).toIntWithin? _ _).map _ = _
    rw [Document.toIntWithin?_ofInt ⟨hlow, hhigh⟩]
    simp

section

variable {α β : Type} [Encode α] [Decode α] [Faithful α] [Encode β] [Decode β] [Faithful β]

instance : Faithful (List α) where
  written as := .array (by simpa using fun a _ => Faithful.written a)
  decode?_encode as := by
    change (as.map encode).mapM decode? = _
    rw [List.mapM_map_eq_some (g := id) as fun a _ => Faithful.decode?_encode a, List.map_id]

instance : Faithful (α × β) where
  written x := .array (by simp [Faithful.written])
  decode?_encode x := by
    change (do some (← decode? (encode x.1), ← decode? (encode x.2))) = _
    rw [Faithful.decode?_encode, Faithful.decode?_encode]
    rfl

end

end Json

open Json

instance : Faithful Instant where
  written t := Faithful.written t.millis
  decode?_encode t := by
    change (decode? (encode t.millis)).map Instant.mk = _
    rw [Faithful.decode?_encode, Option.map_some]

instance : Faithful Window where
  written
    | .global => .text "Global"
    | .interval start stop => .object (List.forall_mem_singleton.2
        (.object (by simp [Faithful.written])))
  decode?_encode
    | .global => rfl
    | .interval start stop => by
      have hfields : (Document.record [("start", encode start), ("end", encode stop)]).fields?
          ["start", "end"] = some [some (encode start), some (encode stop)] :=
        Document.fields?_record (show ["start", "end"].Nodup by decide)
      change (do
        match ← (Document.record [("start", encode start), ("end", encode stop)]).fields?
          ["start", "end"] with
        | [some start, some stop] => some (Window.interval (← decode? start) (← decode? stop))
        | _ => none) = _
      rw [hfields]
      simp [Faithful.decode?_encode]

instance : Faithful Namespace where
  written
    | .global => .text "Global"
    | .window w => .object (List.forall_mem_singleton.2 (Faithful.written w))
  decode?_encode
    | .global => rfl
    | .window w => by
      change (decode? (encode w)).map Namespace.window = _
      rw [Faithful.decode?_encode, Option.map_some]

instance : Faithful Address where
  written a := .object (by simp [Faithful.written])
  decode?_encode a := by
    have hfields : (encode a).fields? ["operator", "key", "namespace", "tag"] =
        some [some (encode a.operator), some (encode a.key), some (encode a.space),
          some (encode a.tag)] :=
      Document.fields?_record (show ["operator", "key", "namespace", "tag"].Nodup by decide)
    change Address.ofDocument? (encode a) = _
    rw [Address.ofDocument?, hfields]
    simp [Faithful.decode?_encode]

end StreamOperator
