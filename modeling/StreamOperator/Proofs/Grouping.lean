import StreamOperator.Grouping
import StreamOperator.Proofs.Collections

/-! Regrouping against the elements of the open bundle. The table of groups and the order of their
encodings are both told by those elements, so no group is lost on the way out. What a regrouper
emits is the stable grouping of what was added since it last emitted or failed. -/

namespace StreamOperator

theorem EncodedKey.shard_lt (k : EncodedKey) (shards : UInt32) : k.shard shards < max shards 1 := by
  have hpos : 0 < (max shards 1).toNat := by
    have hone : (1 : UInt32) ≤ max shards 1 := by
      show (1 : UInt32) ≤ if shards ≤ 1 then 1 else shards
      split
      · exact UInt32.le_refl 1
      next hle => exact UInt32.le_of_lt (UInt32.not_le.1 hle)
    exact UInt32.le_iff_toNat_le.1 hone
  have hmod : k.hash.toNat % (max shards 1).toNat < (max shards 1).toNat := Nat.mod_lt _ hpos
  have hsize : (max shards 1).toNat < 4294967296 := (max shards 1).toNat_lt
  rw [UInt32.lt_iff_toNat_lt, shard, UInt64.toNat_toUInt32, UInt64.toNat_mod,
    UInt32.toNat_toUInt64, Nat.mod_eq_of_lt (by omega)]
  exact hmod

variable {κ α : Type}

namespace Regrouper

theorem takeInOrder_eq (groups : Std.ExtTreeMap EncodedKey (WorkItem κ α)) {order : List EncodedKey}
    (horder : order.Nodup) :
    takeInOrder groups order =
      order.filterMap fun k => groups[k]?.map fun item => ⟨k, .timeless item⟩ := by
  induction order generalizing groups with
  | nil => rfl
  | cons k order ih =>
    obtain ⟨hk, horder⟩ := List.nodup_cons.1 horder
    unfold takeInOrder
    cases hgroup : groups[k]? with
    | none => simp [hgroup, ih groups horder]
    | some item =>
      -- The groups that are still to come are not the one that was taken.
      have hrest : order.filterMap (fun k' => (groups.erase k)[k']?.map
            fun item => (⟨k', .timeless item⟩ : KeyedBundle κ α)) =
          order.filterMap fun k' => groups[k']?.map fun item => ⟨k', .timeless item⟩ := by
        apply List.filterMap_congr
        intro k' hk'
        have hne : k ≠ k' := fun heq => hk (heq ▸ hk')
        simp [Std.ExtTreeMap.getElem?_erase, hne]
      simp [hgroup, ih _ horder, hrest]

end Regrouper

def Element.dropKey (e : Element (κ × α)) : Element α := e.withValue e.value.2

section

variable [Label κ]

def Coder.encoding? (c : Coder κ) (e : Element (κ × α)) : Option EncodedKey :=
  (c.key e.value.1).toOption

theorem Coder.encoding?_eq_some_iff {c : Coder κ} {e : Element (κ × α)} {k : EncodedKey} :
    c.encoding? e = some k ↔ c.key e.value.1 = .ok k := by
  unfold encoding?
  cases c.key e.value.1 <;> simp [Except.toOption]

/-- The group of an encoding: the values of its elements under the key of the first. -/
def Coder.groupOf (c : Coder κ) (es : List (Element (κ × α))) (k : EncodedKey) :
    Option (WorkItem κ α) :=
  (es.find? (c.encoding? · = some k)).map fun first =>
    ⟨first.value.1, (es.filter (c.encoding? · = some k)).map Element.dropKey, []⟩

def Coder.firstFailure? (c : Coder κ) (es : List (Element (κ × α))) : Option InternalError :=
  es.findSome? fun e =>
    match c.key e.value.1 with
    | .ok _ => none
    | .error cause => some cause

theorem Coder.exists_key_of_firstFailure? {c : Coder κ} {es : List (Element (κ × α))}
    (h : c.firstFailure? es = none) {e : Element (κ × α)} (he : e ∈ es) :
    ∃ k, c.key e.value.1 = .ok k := by
  have hnone := List.findSome?_eq_none_iff.1 h e he
  cases hkey : c.key e.value.1 with
  | error cause => simp [hkey] at hnone
  | ok k => exact ⟨k, rfl⟩

theorem Coder.key_eq_of_encode_eq {c : Coder κ} {key key' : κ} {k k' : EncodedKey}
    (h : c.encode key = c.encode key') (hk : c.key key = .ok k) (hk' : c.key key' = .ok k') :
    k = k' := by
  unfold Coder.key at hk hk'
  rw [h] at hk
  cases hencode : c.encode key' with
  | error cause => simp [hencode] at hk
  | ok bytes =>
    rw [hencode] at hk hk'
    cases hk
    cases hk'
    rfl

inductive RegrouperCall (κ α : Type)
  | add (e : Element (κ × α))
  | addAll (es : List (Element (κ × α)))
  | finish

namespace RegrouperCall

def elements : RegrouperCall κ α → List (Element (κ × α))
  | add e => [e]
  | addAll es => es
  | finish => []

def emits : RegrouperCall κ α → Bool
  | add _ => false
  | addAll _ => true
  | finish => true

end RegrouperCall

/-- The elements that were added since the last emission or failure. -/
def Coder.opened (c : Coder κ) (cs : List (RegrouperCall κ α)) : List (Element (κ × α)) :=
  cs.foldl (fun es call =>
    if call.emits || (c.firstFailure? call.elements).isSome then [] else es ++ call.elements) []

theorem Coder.opened_concat (c : Coder κ) (cs : List (RegrouperCall κ α))
    (call : RegrouperCall κ α) :
    c.opened (cs ++ [call]) =
      if call.emits || (c.firstFailure? call.elements).isSome then []
      else c.opened cs ++ call.elements :=
  List.foldl_append

theorem Coder.exists_key_of_mem_opened (c : Coder κ) (cs : List (RegrouperCall κ α))
    {e : Element (κ × α)} (he : e ∈ c.opened cs) : ∃ k, c.key e.value.1 = .ok k := by
  induction cs using List.reverseRecOn with
  | nil => cases he
  | append_singleton cs call ih =>
    rw [opened_concat] at he
    split at he
    · cases he
    next hopen =>
      cases List.mem_append.1 he with
      | inl he => exact ih he
      | inr he => exact exists_key_of_firstFailure? (by simp_all) he

/-- Bundles that are the stable grouping of elements by the encodings of their keys. -/
structure Regrouping (c : Coder κ) (es : List (Element (κ × α)))
    (bundles : List (KeyedBundle κ α)) : Prop where
  keys : bundles.map KeyedBundle.key = (es.filterMap c.encoding?).eraseDups
  item : ∀ b ∈ bundles, ∃ first, es.find? (c.encoding? · = some b.key) = some first ∧
    b.item = ⟨⟨first.value.1, (es.filter (c.encoding? · = some b.key)).map Element.dropKey, []⟩,
      .negInf, [.global], .noFiring⟩

namespace Regrouping

variable {c : Coder κ} {es : List (Element (κ × α))} {bundles : List (KeyedBundle κ α)}
  {b : KeyedBundle κ α}

theorem mem_keys (h : Regrouping c es bundles) {k : EncodedKey} :
    k ∈ bundles.map KeyedBundle.key ↔ ∃ e ∈ es, c.encoding? e = some k := by
  rw [h.keys, List.mem_eraseDups, List.mem_filterMap]

theorem keyBy_item (h : Regrouping c es bundles) (hb : b ∈ bundles) :
    c.keyBy WorkItem.key b.item.value = .ok b.key := by
  obtain ⟨first, hfirst, hitem⟩ := h.item b hb
  have hencoding : c.encoding? first = some b.key := by simpa using List.find?_some hfirst
  rw [hitem]
  exact Coder.encoding?_eq_some_iff.1 hencoding

theorem elements_perm (h : Regrouping c es bundles)
    (hes : ∀ e ∈ es, ∃ k, c.key e.value.1 = .ok k) :
    (bundles.flatMap fun b => b.item.value.elements.map (Except.ok b.key, ·)).Perm
      (es.map fun e => (c.key e.value.1, e.dropKey)) := by
  have hvalues : (bundles.flatMap fun b => b.item.value.elements.map (Except.ok b.key, ·)) =
      ((bundles.map KeyedBundle.key).flatMap fun k => es.filter (c.encoding? · = some k)).map
        fun e => (c.key e.value.1, e.dropKey) := by
    rw [List.map_flatMap, List.flatMap_map]
    apply List.flatMap_congr
    intro b hb
    obtain ⟨first, -, hitem⟩ := h.item b hb
    rw [hitem, List.map_map]
    apply List.map_congr_left
    intro e he
    have hkey := Coder.encoding?_eq_some_iff.1 (of_decide_eq_true (List.mem_filter.1 he).2)
    exact congrArg (·, e.dropKey) hkey.symm
  have hkeys : (bundles.map KeyedBundle.key).Nodup := by
    rw [h.keys]
    exact List.nodup_eraseDups _
  rw [hvalues]
  apply List.Perm.map
  apply List.flatMap_filter_perm c.encoding? hkeys
  intro e he
  obtain ⟨k, hk⟩ := hes e he
  have hencoding := Coder.encoding?_eq_some_iff.2 hk
  exact ⟨k, h.mem_keys.2 ⟨e, he, hencoding⟩, hencoding⟩

end Regrouping

namespace Regrouper

structure Holds (r : Regrouper κ α) (c : Coder κ) (es : List (Element (κ × α))) : Prop where
  coder : r.coder = c
  groups : ∀ k, r.groups[k]? = c.groupOf es k
  order : r.order = (es.filterMap c.encoding?).eraseDups

theorem holds_start (c : Coder κ) : (start c : Regrouper κ α).Holds c [] where
  coder := rfl
  groups k := by simp [start, Coder.groupOf]
  order := rfl

theorem groupOf_concat (c : Coder κ) (es : List (Element (κ × α))) {e : Element (κ × α)}
    {k : EncodedKey} (he : c.encoding? e = some k) (k' : EncodedKey) :
    c.groupOf (es ++ [e]) k' =
      if k = k' then
        some (match c.groupOf es k with
          | some item => { item with elements := item.elements ++ [e.dropKey] }
          | none => ⟨e.value.1, [e.dropKey], []⟩)
      else c.groupOf es k' := by
  unfold Coder.groupOf
  rw [List.find?_append, List.filter_append]
  by_cases hk : k = k'
  · subst hk
    cases hfirst : es.find? (c.encoding? · = some k) with
    | none =>
      have hfilter : es.filter (c.encoding? · = some k) = [] := by
        simpa [List.filter_eq_nil_iff] using hfirst
      simp [he, hfilter]
    | some first => simp [he]
  · have hne : ¬ c.encoding? e = some k' := by simpa [he] using hk
    simp [hk, hne]

theorem isSome_groupOf_iff {c : Coder κ} {es : List (Element (κ × α))} {k : EncodedKey} :
    (c.groupOf es k).isSome ↔ k ∈ es.filterMap c.encoding? := by
  simp [Coder.groupOf, List.mem_filterMap]

theorem Holds.put {r : Regrouper κ α} {c : Coder κ} {es : List (Element (κ × α))}
    (h : r.Holds c es) {e : Element (κ × α)} {k : EncodedKey} (he : c.encoding? e = some k) :
    (r.put k e.value.1 e.dropKey).Holds c (es ++ [e]) := by
  have horder : ((es ++ [e]).filterMap c.encoding?).eraseDups =
      if k ∈ es.filterMap c.encoding? then r.order else r.order ++ [k] := by
    rw [List.filterMap_append, List.filterMap_cons_some he, List.filterMap_nil, List.eraseDups_concat,
      h.order]
  unfold Regrouper.put
  rw [h.groups]
  cases hgroup : c.groupOf es k with
  | some item =>
    have hmem : k ∈ es.filterMap c.encoding? := isSome_groupOf_iff.1 (by simp [hgroup])
    refine ⟨h.coder, fun k' => ?_, ?_⟩
    · rw [groupOf_concat c es he, hgroup, ← h.groups]
      simp [Std.ExtTreeMap.getElem?_insert]
    · rw [horder, if_pos hmem]
  | none =>
    have hmem : k ∉ es.filterMap c.encoding? := by
      intro hk
      simpa [hgroup] using isSome_groupOf_iff.2 hk
    refine ⟨h.coder, fun k' => ?_, ?_⟩
    · rw [groupOf_concat c es he, hgroup, ← h.groups]
      simp [Std.ExtTreeMap.getElem?_insert]
    · rw [horder, if_neg hmem]

theorem Holds.clear {r : Regrouper κ α} {c : Coder κ} {es : List (Element (κ × α))}
    (h : r.Holds c es) : r.clear = start c := by
  rw [← h.coder]
  rfl

theorem Holds.regrouping {r : Regrouper κ α} {c : Coder κ} {es : List (Element (κ × α))}
    (h : r.Holds c es) : Regrouping c es r.finish.1 := by
  have hnodup : r.order.Nodup := by
    rw [h.order]
    exact List.nodup_eraseDups _
  have hfinish : r.finish.1 = r.order.filterMap fun k =>
      (c.groupOf es k).map fun item => ⟨k, .timeless item⟩ := by
    simp only [finish, takeInOrder_eq _ hnodup, h.groups]
  have hgroups : ∀ k ∈ r.order, ∃ item, c.groupOf es k = some item := by
    intro k hk
    rw [h.order, List.mem_eraseDups] at hk
    exact Option.isSome_iff_exists.1 (isSome_groupOf_iff.2 hk)
  refine ⟨?_, fun b hb => ?_⟩
  · rw [hfinish, List.map_filterMap, ← h.order]
    calc
      _ = r.order.filterMap some := by
        apply List.filterMap_congr
        intro k hk
        obtain ⟨item, hitem⟩ := hgroups k hk
        rw [hitem]
        rfl
      _ = r.order := List.filterMap_some
  · rw [hfinish] at hb
    obtain ⟨k, -, hk⟩ := List.mem_filterMap.1 hb
    obtain ⟨item, hitem, rfl⟩ := Option.map_eq_some_iff.1 hk
    obtain ⟨first, hfirst, rfl⟩ := Option.map_eq_some_iff.1 hitem
    exact ⟨first, hfirst, rfl⟩

theorem add_of_ok {r : Regrouper κ α} {c : Coder κ} {es : List (Element (κ × α))}
    (h : r.Holds c es) {e : Element (κ × α)} {k : EncodedKey} (he : c.key e.value.1 = .ok k) :
    ∃ r', r.add e = (.ok (), r') ∧ r'.Holds c (es ++ [e]) := by
  refine ⟨_, ?_, h.put (Coder.encoding?_eq_some_iff.2 he)⟩
  rw [add, h.coder, he]
  rfl

theorem add_of_error {r : Regrouper κ α} {c : Coder κ} {es : List (Element (κ × α))}
    (h : r.Holds c es) {e : Element (κ × α)} {cause : InternalError}
    (he : c.key e.value.1 = .error cause) : r.add e = (.error cause, start c) := by
  rw [add, h.coder, he, ← h.clear]

theorem addAll_eq {r : Regrouper κ α} {c : Coder κ} {es : List (Element (κ × α))}
    (h : r.Holds c es) (fs : List (Element (κ × α))) :
    match c.firstFailure? fs with
    | some cause => r.addAll fs = (.error cause, start c)
    | none =>
      ∃ bundles, r.addAll fs = (.ok bundles, start c) ∧ Regrouping c (es ++ fs) bundles := by
  induction fs generalizing r es with
  | nil =>
    refine ⟨_, ?_, (List.append_nil es).symm ▸ h.regrouping⟩
    rw [addAll, finish, h.clear]
  | cons f fs ih =>
    unfold Coder.firstFailure? addAll
    rw [List.findSome?_cons]
    cases hf : c.key f.value.1 with
    | error cause => rw [add_of_error h hf]
    | ok k =>
      obtain ⟨r', hadd, hr'⟩ := add_of_ok h hf
      rw [hadd]
      have hrest := ih hr'
      rw [List.append_assoc] at hrest
      exact hrest

/-- Makes a call. One that asks for no bundles is answered with none. -/
def call (r : Regrouper κ α) :
    RegrouperCall κ α → Except InternalError (Option (List (KeyedBundle κ α))) × Regrouper κ α
  | .add e => ((r.add e).1.map fun _ => none, (r.add e).2)
  | .addAll es => ((r.addAll es).1.map some, (r.addAll es).2)
  | .finish => (.ok (some r.finish.1), r.finish.2)

def ofCalls (c : Coder κ) (cs : List (RegrouperCall κ α)) : Regrouper κ α :=
  cs.foldl (fun r call => (r.call call).2) (start c)

theorem Holds.call {r : Regrouper κ α} {c : Coder κ} {es : List (Element (κ × α))}
    (h : r.Holds c es) (call : RegrouperCall κ α) :
    match c.firstFailure? call.elements with
    | some cause => r.call call = (.error cause, start c)
    | none =>
      if call.emits then
        ∃ bundles, r.call call = (.ok (some bundles), start c) ∧
          Regrouping c (es ++ call.elements) bundles
      else ∃ r', r.call call = (.ok none, r') ∧ r'.Holds c (es ++ call.elements) := by
  cases call with
  | add e =>
    simp only [Coder.firstFailure?, Regrouper.call, RegrouperCall.elements,
      List.findSome?_singleton]
    cases he : c.key e.value.1 with
    | error cause => simp [add_of_error h he, Except.map]
    | ok k =>
      obtain ⟨r', hadd, hr'⟩ := add_of_ok h he
      simpa [hadd, RegrouperCall.emits, Except.map] using hr'
  | addAll fs =>
    have hall := addAll_eq h fs
    simp only [Regrouper.call, RegrouperCall.elements]
    cases hfailure : c.firstFailure? fs with
    | some cause =>
      simp only [hfailure] at hall
      simp [hall, Except.map]
    | none =>
      simp only [hfailure] at hall
      obtain ⟨bundles, hadd, hbundles⟩ := hall
      simpa [hadd, RegrouperCall.emits, Except.map] using hbundles
  | finish =>
    refine ⟨r.finish.1, ?_, (List.append_nil es).symm ▸ h.regrouping⟩
    rw [← h.clear]
    rfl

theorem holds_ofCalls (c : Coder κ) (cs : List (RegrouperCall κ α)) :
    (ofCalls c cs).Holds c (c.opened cs) := by
  induction cs using List.reverseRecOn with
  | nil => exact holds_start c
  | append_singleton cs call ih =>
    have hcall := ih.call call
    rw [Coder.opened_concat, ofCalls, List.foldl_append]
    show ((ofCalls c cs).call call).2.Holds c _
    cases hfailure : c.firstFailure? call.elements with
    | some cause =>
      rw [hfailure] at hcall
      rw [hcall, Option.isSome_some, Bool.or_true]
      exact holds_start c
    | none =>
      rw [hfailure] at hcall
      cases hemits : call.emits with
      | true =>
        simp only [hemits, if_true] at hcall
        obtain ⟨bundles, hcall, -⟩ := hcall
        rw [hcall]
        exact holds_start c
      | false =>
        simp only [hemits, Bool.false_eq_true, if_false] at hcall
        obtain ⟨r', hcall, hr'⟩ := hcall
        rw [hcall]
        exact hr'

/-- Whatever calls came before, a call with a key that has no encoding fails by the first of these
keys and leaves nothing of the open bundle. One that asks for bundles is answered with the stable
grouping of what the open bundle held, of which nothing is lost or doubled. The encoding of a
bundle's key is the one that the bundle is known by, and one shard takes all keys that share it. -/
theorem regrouping_of_calls (c : Coder κ) (cs : List (RegrouperCall κ α))
    (call : RegrouperCall κ α) :
    let r := ofCalls c cs
    let es := c.opened cs ++ call.elements
    match c.firstFailure? call.elements with
    | some cause => r.call call = (.error cause, start c)
    | none =>
      if call.emits then
        ∃ bundles, r.call call = (.ok (some bundles), start c) ∧
          Regrouping c es bundles ∧
          (bundles.flatMap fun b => b.item.value.elements.map (Except.ok b.key, ·)).Perm
            (es.map fun e => (c.key e.value.1, e.dropKey)) ∧
          ∀ b ∈ bundles, c.keyBy WorkItem.key b.item.value = .ok b.key ∧
            ∀ shards, b.shard shards < max shards 1 ∧
              ∀ key k, c.encode key = c.encode b.item.value.key → c.key key = .ok k →
                k.shard shards = b.shard shards
      else (r.call call).1 = .ok none := by
  intro r es
  have hcall := (holds_ofCalls c cs).call call
  cases hfailure : c.firstFailure? call.elements with
  | some cause =>
    rw [hfailure] at hcall
    exact hcall
  | none =>
    have hes : ∀ e ∈ es, ∃ k, c.key e.value.1 = .ok k := by
      intro e he
      cases List.mem_append.1 he with
      | inl he => exact c.exists_key_of_mem_opened cs he
      | inr he => exact Coder.exists_key_of_firstFailure? hfailure he
    rw [hfailure] at hcall
    cases hemits : call.emits with
    | true =>
      simp only [hemits, if_true] at hcall ⊢
      obtain ⟨bundles, hcall, hbundles⟩ := hcall
      refine ⟨bundles, hcall, hbundles, hbundles.elements_perm hes, fun b hb => ?_⟩
      have hkey := hbundles.keyBy_item hb
      refine ⟨hkey, fun shards => ⟨b.key.shard_lt shards, fun key k hencode hk => ?_⟩⟩
      rw [Coder.key_eq_of_encode_eq hencode hk hkey]
      rfl
    | false =>
      simp only [hemits, Bool.false_eq_true, if_false] at hcall ⊢
      obtain ⟨r', hcall, -⟩ := hcall
      show ((ofCalls c cs).call call).1 = .ok none
      rw [hcall]

end Regrouper

end

instance : Label Nat := ⟨toString⟩

def parity : Coder Nat where
  name := "Parity"
  encode n := if n < 100 then .ok [if n % 2 = 0 then 0 else 1] else .error (.custom "too great")

namespace Regrouper

/-- The second element takes the first one down with it. -/
def parityCalls : List (RegrouperCall Nat Nat) :=
  [.add (.inGlobalWindow (2, 10) ⟨1⟩), .addAll [.inGlobalWindow (200, 20) ⟨2⟩],
    .add (.inGlobalWindow (5, 30) ⟨3⟩)]

def parityCall : RegrouperCall Nat Nat :=
  .addAll [.inGlobalWindow (4, 40) ⟨4⟩, .inGlobalWindow (7, 50) ⟨5⟩]

theorem regrouping_by_parity :
    ∃ bundles, (ofCalls parity parityCalls).call parityCall = (.ok (some bundles), start parity) ∧
      bundles.map (fun b => (b.key.bytes, b.item.value.key)) = [([1], 5), ([0], 4)] ∧
      (bundles.flatMap fun b => b.item.value.elements.map (Except.ok b.key, ·)).Perm
        ((parity.opened parityCalls ++ parityCall.elements).map fun e =>
          (parity.key e.value.1, e.dropKey)) ∧
      ∀ b ∈ bundles, b.shard 2 < 2 := by
  obtain ⟨bundles, hcall, -, hperm, hbundles⟩ := regrouping_of_calls parity parityCalls parityCall
  have hkeys : (((ofCalls parity parityCalls).call parityCall).1.toOption.bind id).map
      (·.map fun b => (b.key.bytes, b.item.value.key)) = some [([1], 5), ([0], 4)] := by
    decide +kernel
  rw [hcall] at hkeys
  exact ⟨bundles, hcall, Option.some.inj hkeys, hperm, fun b hb => ((hbundles b hb).2 2).1⟩

end Regrouper

end StreamOperator
