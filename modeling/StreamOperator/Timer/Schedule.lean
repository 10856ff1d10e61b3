import Std.Data.ExtTreeSet
import StreamOperator.Error
import StreamOperator.Timer.Basic

/-! The timers of all keys of an operator: a table of slots for each key that has a timer, and an
agenda of the same timers in the order in which they fall due, by target, key and slot. A key's
table is made with its first timer and dropped with its last. -/

namespace StreamOperator

/-- A place on the agenda. -/
structure Due where
  target : Instant
  key : EncodedKey
  slot : TimerSlot
deriving DecidableEq

namespace Due

def order : Due → Due → Ordering :=
  compareLex (compareOn target) (compareLex (compareOn key) (compareOn slot))

instance : Ord Due := ⟨order⟩

instance : Std.TransOrd Due := by
  show Std.TransCmp order
  unfold order
  infer_instance

instance : Std.LawfulEqOrd Due where
  eq_of_compare {a b} h := by
    change order a b = .eq at h
    simp only [order, compareLex_eq_eq, compareOn, Std.LawfulEqOrd.compare_eq_iff_eq] at h
    obtain ⟨h₁, h₂, h₃⟩ := h
    cases a; cases b; cases h₁; cases h₂; cases h₃; rfl

end Due

abbrev SlotTable := Std.ExtTreeMap TimerSlot Timer

structure Schedule where
  tables : Std.ExtTreeMap EncodedKey SlotTable
  agenda : Std.ExtTreeSet Due

namespace Schedule

def empty : Schedule := ⟨∅, ∅⟩

instance : Inhabited Schedule := ⟨empty⟩

def timer? (s : Schedule) (key : EncodedKey) (slot : TimerSlot) : Option Timer :=
  s.tables[key]?.bind (·[slot]?)

def state (s : Schedule) (key : EncodedKey) (slot : TimerSlot) : TimerState :=
  match s.timer? key slot with
  | some t => .scheduled t.target t.domain
  | none => .unset

/-- Schedules a timer over whatever its slot held. Only event time is served. -/
def set (s : Schedule) (key : EncodedKey) (t : Timer) : Except UnsupportedOperation Schedule :=
  if t.domain ≠ .event then .error (.timerDomain t.domain)
  else
    let table := s.tables.getD key ∅
    let agenda :=
      match table[t.slot]? with
      | some previous => s.agenda.erase ⟨previous.target, key, t.slot⟩
      | none => s.agenda
    .ok {
      tables := s.tables.insert key (table.insert t.slot t)
      agenda := agenda.insert ⟨t.target, key, t.slot⟩ }

/-- Empties a slot of a key's table, and drops a table that holds nothing more. -/
def dropSlot (tables : Std.ExtTreeMap EncodedKey SlotTable) (key : EncodedKey) (table : SlotTable)
    (slot : TimerSlot) : Std.ExtTreeMap EncodedKey SlotTable :=
  let rest := table.erase slot
  if rest.isEmpty then tables.erase key else tables.insert key rest

/-- Takes a timer off the schedule, with what it was. -/
def delete (s : Schedule) (key : EncodedKey) (slot : TimerSlot) : Option Timer × Schedule :=
  match s.tables[key]? with
  | none => (none, s)
  | some table =>
    match table[slot]? with
    | none => (none, s)
    | some t =>
      (some t, ⟨dropSlot s.tables key table slot, s.agenda.erase ⟨t.target, key, slot⟩⟩)

/-- Takes the timer at a place of the agenda out of the tables. -/
def fire (tables : Std.ExtTreeMap EncodedKey SlotTable) (due : Due) :
    Option FiredTimer × Std.ExtTreeMap EncodedKey SlotTable :=
  match tables[due.key]? with
  | none => (none, tables)
  | some table =>
    match table[due.slot]? with
    | none => (none, tables)
    | some t => (some ⟨due.key, t⟩, dropSlot tables due.key table due.slot)

def fireAll (tables : Std.ExtTreeMap EncodedKey SlotTable) :
    List Due → List FiredTimer × Std.ExtTreeMap EncodedKey SlotTable
  | [] => ([], tables)
  | due :: rest =>
    let (fired, tables) := fire tables due
    let (later, tables) := fireAll tables rest
    (fired.toList ++ later, tables)

/-- Removes every timer with a target up to the watermark, the earliest first. -/
def popDue (s : Schedule) (watermark : Instant) : List FiredTimer × Schedule :=
  let (fired, tables) := fireAll s.tables (s.agenda.toList.takeWhile (·.target ≤ watermark))
  (fired, ⟨tables, s.agenda.filter (¬ ·.target ≤ watermark)⟩)

def nextDue? (s : Schedule) : Option Instant := s.agenda.min?.map Due.target

def pendingCount (s : Schedule) : Nat := s.agenda.size

def activeKeys (s : Schedule) : Nat := s.tables.size

def timersFor (s : Schedule) (key : EncodedKey) : List Timer :=
  (s.tables[key]?.map Std.ExtTreeMap.values).getD []

end Schedule

end StreamOperator
