import StreamOperator.Error
import StreamOperator.Executor.Locks

/-! An executor runs keyed work under the lock of its key and one of a number of permits. The lock
comes first, so work that waits for a busy key takes no permit. -/

namespace StreamOperator

structure Executor where
  locks : LockTable
  limit : Nat
  running : Nat

namespace Executor

/-- An executor for at most `limit` pieces of work at a time, and at least one. -/
def create (limit : Nat) : Executor := ⟨.empty, max limit 1, 0⟩

def hasPermit (e : Executor) : Bool := e.running < e.limit

/-- Runs work if its lock and a permit are free at once. Otherwise the attempt is given up, and
nothing but the key's entry stays. -/
def attempt {α : Type} (e : Executor) (key : EncodedKey) (work : Executor → α × Executor) :
    Option α × Executor :=
  match e.locks.tryLock key with
  | (none, locks) => (none, { e with locks })
  | (some ticket, locks) =>
    if e.hasPermit then
      let (result, e) := work { e with locks, running := e.running + 1 }
      (some result, { e with locks := e.locks.leave ticket, running := e.running - 1 })
    else (none, { e with locks := locks.leave ticket })

end Executor

end StreamOperator
