import StreamOperator.Element
import StreamOperator.Key.Coder
import StreamOperator.Timer.Basic

/-! Grouping of keyed elements within a bundle. Elements whose keys have one encoding form a group;
groups stand in the order of their first elements, and a group is known by the key of its first.
A key without encoding discards the whole open bundle. -/

namespace StreamOperator

/-- A key with its values and the timers that fired for it. -/
structure WorkItem (κ α : Type) where
  key : κ
  elements : List (Element α)
  timers : List Timer

/-- A work item with the encoding of its key, which says where it goes. -/
structure KeyedBundle (κ α : Type) where
  key : EncodedKey
  item : Element (WorkItem κ α)

def KeyedBundle.shard {κ α : Type} (b : KeyedBundle κ α) (shards : UInt32) : UInt32 :=
  b.key.shard shards

/-- How an operator tells the keys of its elements: it encodes what stands for the key in them. -/
def Coder.keyBy {κ ι : Type} [Label κ] (c : Coder κ) (key : ι → κ) (value : ι) :
    Except InternalError EncodedKey :=
  c.key (key value)

/-- The open bundle: its groups by the encodings of their keys, and the encodings in the order in
which they came. -/
structure Regrouper (κ α : Type) where
  coder : Coder κ
  groups : Std.ExtTreeMap EncodedKey (WorkItem κ α)
  order : List EncodedKey

namespace Regrouper

variable {κ α : Type}

def start (coder : Coder κ) : Regrouper κ α := ⟨coder, ∅, []⟩

def clear (r : Regrouper κ α) : Regrouper κ α := { r with groups := ∅, order := [] }

/-- Puts a value into the group of an encoding, or into a new one, at the end, for its key. -/
def put (r : Regrouper κ α) (encoding : EncodedKey) (key : κ) (value : Element α) :
    Regrouper κ α :=
  match r.groups[encoding]? with
  | some item =>
    let item := { item with elements := item.elements ++ [value] }
    { r with groups := r.groups.insert encoding item }
  | none =>
    { r with
      groups := r.groups.insert encoding ⟨key, [value], []⟩
      order := r.order ++ [encoding] }

/-- Takes groups out of a table in turn. An encoding without a group is passed over. -/
def takeInOrder (groups : Std.ExtTreeMap EncodedKey (WorkItem κ α)) :
    List EncodedKey → List (KeyedBundle κ α)
  | [] => []
  | encoding :: order =>
    match groups[encoding]? with
    | some item => ⟨encoding, .timeless item⟩ :: takeInOrder (groups.erase encoding) order
    | none => takeInOrder groups order

/-- One work item for each group; the next bundle starts empty. -/
def finish (r : Regrouper κ α) : List (KeyedBundle κ α) × Regrouper κ α :=
  (takeInOrder r.groups r.order, r.clear)

def keyCount (r : Regrouper κ α) : Nat := r.groups.size

variable [Label κ]

def add (r : Regrouper κ α) (e : Element (κ × α)) : Except InternalError Unit × Regrouper κ α :=
  match r.coder.key e.value.1 with
  | .ok encoding => (.ok (), r.put encoding e.value.1 (e.withValue e.value.2))
  | .error cause => (.error cause, r.clear)

/-- Adds a whole bundle and finishes it, unless a key has no encoding. -/
def addAll (r : Regrouper κ α) :
    List (Element (κ × α)) → Except InternalError (List (KeyedBundle κ α)) × Regrouper κ α
  | [] =>
    let (bundles, r) := r.finish
    (.ok bundles, r)
  | e :: es =>
    match r.add e with
    | (.ok (), r) => r.addAll es
    | (.error cause, r) => (.error cause, r)

end Regrouper

end StreamOperator
