import Std.Data.ExtTreeMap
import StreamOperator.Key.Basic

/-! One lock for each key. The table has an entry for a key from its first use until it is pruned;
the entry names the mutex that the key's users share. A ticket is a party's interest in a key: it
waits for the mutex or holds it. Pruning drops the entries whose mutex no ticket is for. -/

namespace StreamOperator

/-- A party that waits for the lock of a key or holds it. -/
structure Ticket where
  number : Nat
  key : EncodedKey
  mutex : Nat
  holds : Bool
deriving DecidableEq

structure LockTable where
  entries : Std.ExtTreeMap EncodedKey Nat
  tickets : List Ticket
  nextMutex : Nat
  nextTicket : Nat

namespace LockTable

def empty : LockTable := ⟨∅, [], 0, 0⟩

instance : Inhabited LockTable := ⟨empty⟩

def size (t : LockTable) : Nat := t.entries.size

def isEmpty (t : LockTable) : Bool := t.entries.isEmpty

/-- The mutex of a key, a new one if the table has no entry for the key. -/
def mutexOf (t : LockTable) (key : EncodedKey) : Nat × LockTable :=
  match t.entries[key]? with
  | some mutex => (mutex, t)
  | none =>
    (t.nextMutex, { t with
      entries := t.entries.insert key t.nextMutex
      nextMutex := t.nextMutex + 1 })

/-- Starts to wait for the lock of a key. Gives the number of the ticket. -/
def enter (t : LockTable) (key : EncodedKey) : Nat × LockTable :=
  let (mutex, t) := t.mutexOf key
  (t.nextTicket, { t with
    tickets := t.tickets ++ [⟨t.nextTicket, key, mutex, false⟩]
    nextTicket := t.nextTicket + 1 })

def isHeld (t : LockTable) (mutex : Nat) : Bool :=
  t.tickets.any fun k => k.holds && k.mutex == mutex

/-- Takes the mutex of a waiting ticket if nobody holds it. -/
def acquire (t : LockTable) (number : Nat) : Bool × LockTable :=
  match t.tickets.find? (·.number == number) with
  | none => (false, t)
  | some ticket =>
    if t.isHeld ticket.mutex then (false, t)
    else
      (true, { t with
        tickets := t.tickets.map fun k =>
          if k.number = number then { k with holds := true } else k })

/-- Gives a lock back, or gives the wait for it up. -/
def leave (t : LockTable) (number : Nat) : LockTable :=
  { t with tickets := t.tickets.filter (·.number != number) }

def inUse (t : LockTable) (mutex : Nat) : Bool := t.tickets.any (·.mutex == mutex)

/-- Drops the entries nobody holds or waits on. Gives their number. -/
def prune (t : LockTable) : Nat × LockTable :=
  let kept := t.entries.filter fun _ mutex => t.inUse mutex
  (t.entries.size - kept.size, { t with entries := kept })

/-- Waits for a lock no longer than it is busy: the ticket of a lock that was free. The entry of
the key is made in any case. -/
def tryLock (t : LockTable) (key : EncodedKey) : Option Nat × LockTable :=
  let (number, t) := t.enter key
  match t.acquire number with
  | (true, t) => (some number, t)
  | (false, t) => (none, t.leave number)

end LockTable

end StreamOperator
