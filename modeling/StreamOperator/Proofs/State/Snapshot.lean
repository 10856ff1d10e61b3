import StreamOperator.Proofs.Json.Faithful
import StreamOperator.Proofs.Timer.Book
import StreamOperator.State.Store

/-! Snapshots of the store in memory. What calls leave at each address decides the snapshot, byte
for byte, and the snapshot gives it back. Neither the calls behind the cells nor the order in
which a table keeps them shows. -/

namespace StreamOperator

open Json

def CellWrite.leave (a : Address) (before : Option Bytes) (w : CellWrite) : Option Bytes :=
  if w.1 = a then w.2 else before

def putAll (entries : List (Address × Bytes)) : List CellWrite :=
  entries.map fun entry => (entry.1, some entry.2)

inductive StoreCall
  | put (address : Address) (content : Bytes)
  | remove (address : Address)
  | apply (writes : List CellWrite)
  | restore (snapshot : String)

namespace StoreCall

def leave (a : Address) (before : Option Bytes) : StoreCall → Option Bytes
  | put b content => if b = a then some content else before
  | remove b => if b = a then none else before
  | apply ws => ws.foldl (CellWrite.leave a) before
  | restore s =>
    match decodeText? s with
    | some entries => (putAll entries).foldl (CellWrite.leave a) none
    | none => before

/-- What calls on an empty store leave at an address. -/
def content? (cs : List StoreCall) (a : Address) : Option Bytes := cs.foldl (leave a) none

end StoreCall

def sortCells (entries : List (Address × Bytes)) : List (Address × Bytes) :=
  entries.mergeSort fun x y => (compare x.1 y.1).isLE

namespace Cells

def call (c : Cells) : StoreCall → Cells
  | .put a content => c.put a content
  | .remove a => c.remove a
  | .apply ws => (StateStore.apply c ws).2
  | .restore s => (c.restore s).2

def calls (c : Cells) (cs : List StoreCall) : Cells := cs.foldl call c

theorem get?_writeAll (c : Cells) (ws : List CellWrite) (a : Address) :
    (c.writeAll ws).get? a = ws.foldl (CellWrite.leave a) (c.get? a) := by
  induction ws generalizing c with
  | nil => rfl
  | cons w ws ih =>
    rw [List.foldl_cons, CellWrite.leave, ← get?_write]
    exact ih (c.write w)

theorem ofList_eq_writeAll (entries : List (Address × Bytes)) :
    ⟨Std.ExtTreeMap.ofList entries compare⟩ = empty.writeAll (putAll entries) := by
  rw [Std.ExtTreeMap.ofList_eq_insertMany_empty]
  change Cells.mk (empty.entries.insertMany entries) = _
  generalize empty = c
  induction entries generalizing c with
  | nil => simp [writeAll, putAll]
  | cons entry entries ih =>
    rw [Std.ExtTreeMap.insertMany_cons]
    exact ih (c.put entry.1 entry.2)

theorem restore_of_decoded {s : String} {entries : List (Address × Bytes)}
    (h : decodeText? s = some entries) (c : Cells) :
    c.restore s = (.ok (), empty.writeAll (putAll entries)) := by
  rw [restore, ofSnapshot, h, ← ofList_eq_writeAll]

theorem restore_of_not_decoded {s : String}
    (h : (decodeText? s : Option (List (Address × Bytes))) = none) (c : Cells) :
    c.restore s = (.error .serialization, c) := by
  rw [restore, ofSnapshot, h]

theorem restore_eq_error_iff {s : String} {c : Cells} :
    c.restore s = (.error .serialization, c) ↔
      (decodeText? s : Option (List (Address × Bytes))) = none := by
  constructor
  · intro h
    cases hs : (decodeText? s : Option (List (Address × Bytes))) with
    | none => rfl
    | some entries =>
      rw [restore_of_decoded hs] at h
      cases h
  · exact fun h => restore_of_not_decoded h c

theorem get?_call (c : Cells) (call : StoreCall) (a : Address) :
    (c.call call).get? a = call.leave a (c.get? a) := by
  cases call with
  | put b content => exact c.get?_put b a content
  | remove b => exact c.get?_remove b a
  | apply ws => exact c.get?_writeAll ws a
  | restore s =>
    rw [Cells.call, StoreCall.leave]
    cases hs : (decodeText? s : Option (List (Address × Bytes))) with
    | none => rw [restore_of_not_decoded hs]
    | some entries => rw [restore_of_decoded hs, get?_writeAll, get?_empty]

theorem get?_calls (c : Cells) (cs : List StoreCall) (a : Address) :
    (c.calls cs).get? a = cs.foldl (StoreCall.leave a) (c.get? a) := by
  induction cs generalizing c with
  | nil => rfl
  | cons call cs ih =>
    rw [List.foldl_cons, ← get?_call]
    exact ih (c.call call)

theorem get?_calls_empty (cs : List StoreCall) (a : Address) :
    (empty.calls cs).get? a = StoreCall.content? cs a := by
  rw [get?_calls, get?_empty, StoreCall.content?]

structure ListedBy (c : Cells) (entries : List (Address × Bytes)) : Prop where
  distinct : entries.Pairwise fun x y => x.1 ≠ y.1
  mem_iff (a : Address) (content : Bytes) : (a, content) ∈ entries ↔ c.get? a = some content

theorem listedBy_toList (c : Cells) : c.ListedBy c.entries.toList where
  distinct := by
    apply c.entries.distinct_keys_toList.imp
    intro x y h heq
    exact h (by rw [heq, Std.ReflOrd.compare_self])
  mem_iff _ _ := Std.ExtTreeMap.mem_toList_iff_getElem?_eq_some

theorem ordered_sortCells {entries : List (Address × Bytes)}
    (h : entries.Pairwise fun x y => x.1 ≠ y.1) :
    (sortCells entries).Pairwise fun x y => compare x.1 y.1 = .lt := by
  have hsorted : (sortCells entries).Pairwise fun x y => (compare x.1 y.1).isLE := by
    apply List.pairwise_mergeSort
    · exact fun x y z => Std.TransOrd.isLE_trans
    · intro x y
      rw [Std.OrientedOrd.eq_swap (a := y.1)]
      cases compare x.1 y.1 <;> rfl
  have hdistinct : (sortCells entries).Pairwise fun x y => x.1 ≠ y.1 :=
    (List.mergeSort_perm entries _).symm.pairwise h Ne.symm
  apply (hsorted.and hdistinct).imp
  intro x y h
  obtain ⟨hle, hne⟩ := h
  cases hxy : compare x.1 y.1 with
  | lt => rfl
  | eq => exact absurd (Std.LawfulEqOrd.eq_of_compare hxy) hne
  | gt => rw [hxy] at hle; cases hle

theorem ListedBy.sortCells_eq {c : Cells} {entries : List (Address × Bytes)}
    (h : c.ListedBy entries) : sortCells entries = c.entries.toList := by
  apply List.eq_of_ordered_of_mem_iff (ordered_sortCells h.distinct) c.entries.ordered_keys_toList
  intro x
  rw [sortCells, List.mem_mergeSort, h.mem_iff, c.listedBy_toList.mem_iff]

theorem ListedBy.writeAll_putAll {c : Cells} {entries : List (Address × Bytes)}
    (h : c.ListedBy entries) : empty.writeAll (putAll entries) = c := by
  have hdistinct : entries.Pairwise fun x y => ¬compare x.1 y.1 = .eq :=
    h.distinct.imp fun hne heq => hne (Std.LawfulEqOrd.eq_of_compare heq)
  rw [← ofList_eq_writeAll]
  ext a : 1
  rw [get?]
  cases ha : c.get? a with
  | some content =>
    exact Std.ExtTreeMap.getElem?_ofList_of_mem Std.ReflOrd.compare_self hdistinct
      ((h.mem_iff a content).2 ha)
  | none =>
    apply Std.ExtTreeMap.getElem?_ofList_of_contains_eq_false
    rw [List.contains_eq_mem, decide_eq_false_iff_not]
    intro hmem
    obtain ⟨x, hx, rfl⟩ := List.mem_map.1 hmem
    rw [(h.mem_iff x.1 x.2).1 hx] at ha
    cases ha

theorem restore_snapshot (c d : Cells) : d.restore c.snapshot = (.ok (), c) := by
  rw [snapshot, restore_of_decoded (decodeText?_encodeText c.entries.toList),
    c.listedBy_toList.writeAll_putAll]

theorem snapshot_injective {c d : Cells} (h : c.snapshot = d.snapshot) : c = d := by
  have hrestored := c.restore_snapshot empty
  rw [h, restore_snapshot] at hrestored
  exact (Prod.mk.inj hrestored).2.symm

/-- Any store takes over from a snapshot what the store behind it holds. A snapshot is the text of
the cells in order, in whatever order they are kept, so two snapshots are the same bytes exactly
when the calls on both sides leave the same at every address. A text that does not decode is
refused, and the store stays as it is. -/
theorem snapshot_of_calls (c d : Cells) (cs ds : List StoreCall) :
    d.restore c.snapshot = (.ok (), c) ∧
      (∀ entries, c.ListedBy entries → encodeText (sortCells entries) = c.snapshot) ∧
      ((∀ a, StoreCall.content? cs a = StoreCall.content? ds a) ↔
        Text.utf8 (empty.calls cs).snapshot = Text.utf8 (empty.calls ds).snapshot) ∧
      ∀ s, (decodeText? s : Option (List (Address × Bytes))) = none ↔
        c.restore s = (.error .serialization, c) := by
  refine ⟨c.restore_snapshot d, ?_, ?_, fun s => restore_eq_error_iff.symm⟩
  · intro entries h
    rw [h.sortCells_eq, snapshot]
  · constructor
    · intro h
      have hcells : empty.calls cs = empty.calls ds := by
        ext a : 1
        rw [get?_calls_empty, get?_calls_empty, h]
      rw [hcells]
    · intro h a
      have hcells := snapshot_injective (Text.utf8_injective h)
      rw [← get?_calls_empty, ← get?_calls_empty, hcells]

def escapedCell : Address :=
  ⟨"\"\\", [0, 255], .window (.interval ⟨Int64.minValue⟩ ⟨Int64.maxValue⟩), "\x00\n\x7f"⟩

def plainCell : Address := ⟨"é😀", [], .global, ""⟩

def twoPuts : List StoreCall := [.put escapedCell [1], .put plainCell []]

def putBack : List StoreCall :=
  [.apply [(plainCell, some []), (escapedCell, some [2])], .remove escapedCell,
    .restore "\x7bnope", .put escapedCell [1]]

theorem twoPuts_snapshot :
    (empty.calls twoPuts).ListedBy [(plainCell, []), (escapedCell, [1])] ∧
      encodeText (sortCells [(plainCell, []), (escapedCell, [1])]) =
        (empty.calls twoPuts).snapshot ∧
      (empty.put plainCell [7]).restore (empty.calls twoPuts).snapshot =
        (.ok (), empty.calls twoPuts) ∧
      (∀ a, StoreCall.content? twoPuts a = StoreCall.content? putBack a) ∧
      Text.utf8 (empty.calls twoPuts).snapshot = Text.utf8 (empty.calls putBack).snapshot ∧
      (empty.calls twoPuts).restore "\x7bnope" = (.error .serialization, empty.calls twoPuts) := by
  have hne : plainCell ≠ escapedCell := by decide
  have hlisted : (empty.calls twoPuts).ListedBy [(plainCell, []), (escapedCell, [1])] := by
    constructor
    · decide
    · intro a content
      rw [get?_calls_empty]
      simp only [StoreCall.content?, twoPuts, List.foldl_cons, List.foldl_nil, StoreCall.leave,
        List.mem_cons, List.not_mem_nil, or_false, Prod.mk.injEq]
      grind
  have hundecoded : (decodeText? "\x7bnope" : Option (List (Address × Bytes))) = none := by decide
  have hsame (a : Address) : StoreCall.content? twoPuts a = StoreCall.content? putBack a := by
    simp only [StoreCall.content?, twoPuts, putBack, List.foldl_cons, List.foldl_nil,
      StoreCall.leave, CellWrite.leave, hundecoded]
    grind
  obtain ⟨hrestore, hlist, hbytes, hrefused⟩ :=
    snapshot_of_calls (empty.calls twoPuts) (empty.put plainCell [7]) twoPuts putBack
  exact ⟨hlisted, hlist _ hlisted, hrestore, hsame, hbytes.1 hsame, (hrefused _).1 hundecoded⟩

end Cells

end StreamOperator
