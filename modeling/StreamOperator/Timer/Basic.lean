import StreamOperator.State.Address
import StreamOperator.Time.Domain

/-! Timers of one key. A timer is known by its slot, a namespace and an id; its target is when it
fires. -/

namespace StreamOperator

/-- What tells the timers of one key apart. -/
structure TimerSlot where
  space : Namespace
  id : String
deriving DecidableEq

namespace TimerSlot

def order : TimerSlot → TimerSlot → Ordering := compareLex (compareOn space) (compareOn id)

instance : Ord TimerSlot := ⟨order⟩

instance : Std.TransOrd TimerSlot := by
  show Std.TransCmp order
  unfold order
  infer_instance

instance : Std.LawfulEqOrd TimerSlot where
  eq_of_compare {a b} h := by
    change order a b = .eq at h
    simp only [order, compareLex_eq_eq, compareOn, Std.LawfulEqOrd.compare_eq_iff_eq] at h
    obtain ⟨h₁, h₂⟩ := h
    cases a; cases b; cases h₁; cases h₂; rfl

end TimerSlot

structure Timer where
  space : Namespace
  id : String
  target : Instant
  domain : TimeDomain
deriving DecidableEq

namespace Timer

def slot (t : Timer) : TimerSlot := ⟨t.space, t.id⟩

def eventTime (space : Namespace) (id : String) (target : Instant) : Timer :=
  ⟨space, id, target, .event⟩

end Timer

inductive TimerState
  | unset
  | scheduled (target : Instant) (domain : TimeDomain)
deriving DecidableEq

/-- A timer that came due, with its key. -/
structure FiredTimer where
  key : EncodedKey
  timer : Timer
deriving DecidableEq

end StreamOperator
