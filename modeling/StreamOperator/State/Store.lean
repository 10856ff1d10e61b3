import StreamOperator.Error
import StreamOperator.State.Address

/-! Stores of keyed state. A store reads single cells and takes the writes of a bundle in one
batch; either may fail, and a store may change when it fails. The store in memory never fails. Its
snapshot lists the cells in the order of their addresses as JSON, so equal contents have equal
snapshots. -/

namespace StreamOperator

open Json

/-- One write of a batch: the new content of a cell, or none to remove it. -/
abbrev CellWrite := Address × Option Bytes

class StateStore (σ : Type) where
  get : σ → Address → Except StateError (Option Bytes)
  apply : σ → List CellWrite → Except StateError Unit × σ

structure Cells where
  entries : Std.ExtTreeMap Address Bytes

namespace Cells

def empty : Cells := ⟨∅⟩

instance : Inhabited Cells := ⟨empty⟩

def get? (c : Cells) (a : Address) : Option Bytes := c.entries[a]?

def put (c : Cells) (a : Address) (content : Bytes) : Cells := ⟨c.entries.insert a content⟩

def remove (c : Cells) (a : Address) : Cells := ⟨c.entries.erase a⟩

def write (c : Cells) (w : CellWrite) : Cells :=
  match w.2 with
  | some content => c.put w.1 content
  | none => c.remove w.1

def writeAll (c : Cells) (ws : List CellWrite) : Cells := ws.foldl write c

def size (c : Cells) : Nat := c.entries.size

def isEmpty (c : Cells) : Bool := c.entries.isEmpty

def snapshot (c : Cells) : String := encodeText c.entries.toList

/-- The contents that a snapshot lists. Of several cells at one address the last stays. -/
def ofSnapshot (s : String) : Except StateError Cells :=
  match (decodeText? s : Option (List (Address × Bytes))) with
  | some entries => .ok ⟨Std.ExtTreeMap.ofList entries compare⟩
  | none => .error .serialization

/-- Takes over the contents of a snapshot; a text that is none leaves the store as it is. -/
def restore (c : Cells) (s : String) : Except StateError Unit × Cells :=
  match ofSnapshot s with
  | .ok restored => (.ok (), restored)
  | .error e => (.error e, c)

instance : StateStore Cells where
  get c a := .ok (c.get? a)
  apply c ws := (.ok (), c.writeAll ws)

@[ext] theorem ext {c d : Cells} (h : ∀ a, c.get? a = d.get? a) : c = d := by
  cases c; cases d
  exact congrArg Cells.mk (Std.ExtTreeMap.ext_getElem? h)

@[simp] theorem get?_empty (a : Address) : empty.get? a = none := by
  simp [empty, get?]

@[simp] theorem get?_put (c : Cells) (a b : Address) (content : Bytes) :
    (c.put a content).get? b = if a = b then some content else c.get? b := by
  simp [put, get?, Std.ExtTreeMap.getElem?_insert]

@[simp] theorem get?_remove (c : Cells) (a b : Address) :
    (c.remove a).get? b = if a = b then none else c.get? b := by
  simp [remove, get?, Std.ExtTreeMap.getElem?_erase]

theorem get?_write (c : Cells) (w : CellWrite) (b : Address) :
    (c.write w).get? b = if w.1 = b then w.2 else c.get? b := by
  obtain ⟨a, content⟩ := w
  cases content <;> simp [write]

end Cells

end StreamOperator
