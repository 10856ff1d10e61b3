import StreamOperator.Executor.Bundles
import StreamOperator.Proofs.Executor.Locks
import Mathlib.Algebra.Ring.Nat
import Mathlib.Data.List.Perm.Basic
import Mathlib.Logic.Relation

/-! Keyed bundles under any order of the steps of their tasks. The tickets of the lock table are
those of the tasks, and the permits taken are those of the tasks that run, so a task that waits for
a key has nothing that another one could need, and there is always one that can go on. -/

namespace StreamOperator

variable {α : Type}

/-- What a ticket says, its mutex apart: its number, its key, and whether it holds the lock. -/
def Ticket.stake (k : Ticket) : Nat × EncodedKey × Bool := (k.number, k.key, k.holds)

namespace Task

/-- The ticket of a task between queueing for its lock and giving it back. -/
def stake? (t : Task α) : Option (Nat × EncodedKey × Bool) :=
  match t.phase with
  | .created => none
  | .waiting ticket => some (ticket, t.key, false)
  | .locked ticket => some (ticket, t.key, true)
  | .running ticket => some (ticket, t.key, true)
  | .ended ticket _ => some (ticket, t.key, true)
  | .finished _ => none

/-- A task runs its bundle, or has yet to give its lock and its permit back. -/
def isActive (t : Task α) : Bool :=
  match t.phase with
  | .running _ => true
  | .ended .. => true
  | _ => false

/-- How many steps a task has still to take. -/
def remaining (t : Task α) : Nat :=
  match t.phase with
  | .created => 5
  | .waiting _ => 4
  | .locked _ => 3
  | .running _ => 2
  | .ended .. => 1
  | .finished _ => 0

def Faithful (t : Task α) : Prop :=
  match t.phase with
  | .ended _ result => result = t.work.result
  | .finished result => result = t.work.result
  | _ => True

inductive Step (t : Task α) (e : Executor) : Task α → Executor → Prop
  | queue (phase : t.phase = .created) :
      Step t e { t with phase := .waiting (e.locks.enter t.key).1 }
        { e with locks := (e.locks.enter t.key).2 }
  | lock {ticket : Nat} (phase : t.phase = .waiting ticket)
      (granted : (e.locks.acquire ticket).1 = true) :
      Step t e { t with phase := .locked ticket } { e with locks := (e.locks.acquire ticket).2 }
  | permit {ticket : Nat} (phase : t.phase = .locked ticket) (free : e.hasPermit = true) :
      Step t e { t with phase := .running ticket } { e with running := e.running + 1 }
  | run {ticket : Nat} (phase : t.phase = .running ticket) :
      Step t e { t with phase := .ended ticket t.work.result } e
  | release {ticket : Nat} {result : Except ExecutionError α}
      (phase : t.phase = .ended ticket result) :
      Step t e { t with phase := .finished result }
        { e with locks := e.locks.leave ticket, running := e.running - 1 }

variable {t t' : Task α} {e e' : Executor}

theorem step?_eq_some_iff : t.step? e = some (t', e') ↔ t.Step e t' e' := by
  constructor
  · intro h
    unfold step? at h
    split at h
    next hphase =>
      cases h
      exact .queue hphase
    next ticket hphase =>
      split at h
      next locks hlock =>
        cases h
        have hgranted : (e.locks.acquire ticket).1 = true := by rw [hlock]
        have hlocks : locks = (e.locks.acquire ticket).2 := by rw [hlock]
        exact hlocks ▸ .lock hphase hgranted
      next => cases h
    next ticket hphase =>
      split at h
      next hfree =>
        cases h
        exact .permit hphase hfree
      next => cases h
    next ticket hphase =>
      cases h
      exact .run hphase
    next ticket result hphase =>
      cases h
      exact .release hphase
    next => cases h
  · intro h
    cases h with
    | queue phase => simp only [step?, phase]
    | lock phase granted =>
      rename_i ticket
      cases hlock : e.locks.acquire ticket with
      | mk free locks =>
        rw [hlock] at granted
        cases granted
        simp only [step?, phase, hlock]
    | permit phase free => simp only [step?, phase, free, if_true]
    | run phase => simp only [step?, phase]
    | release phase => simp only [step?, phase]

theorem Step.remaining (h : t.Step e t' e') : t.remaining = t'.remaining + 1 := by
  cases h <;> simp [Task.remaining, *]

theorem Step.bundle (h : t.Step e t' e') : (t'.key, t'.work) = (t.key, t.work) := by
  cases h <;> rfl

theorem Step.permits (h : t.Step e t' e') {others : Nat}
    (ht : e.running = others + if t.isActive then 1 else 0) :
    e'.running = others + if t'.isActive then 1 else 0 := by
  cases h with
  | queue phase => simpa [isActive, phase] using ht
  | lock phase => simpa [isActive, phase] using ht
  | permit phase => simpa [isActive, phase] using ht
  | run phase => simpa [isActive, phase] using ht
  | release phase => simp [isActive, phase] at ht ⊢; omega

theorem Step.faithful (h : t.Step e t' e') (ht : t.Faithful) : t'.Faithful := by
  cases h with
  | release phase => simpa [Faithful, phase] using ht
  | _ => simp [Faithful]

end Task

def holdStake (number : Nat) (s : Nat × EncodedKey × Bool) : Nat × EncodedKey × Bool :=
  if s.1 = number then (s.1, s.2.1, true) else s

theorem Ticket.stake_grant (number : Nat) (k : Ticket) :
    (LockTable.grant number k).stake = holdStake number k.stake := by
  unfold LockTable.grant holdStake stake
  split <;> rfl

/-- An executor that nobody uses, for at most `limit` bundles at a time, or one where that is
none. -/
structure Executor.Idle (limit : Nat) (e : Executor) : Prop where
  locks : e.locks.Sound
  tickets : e.locks.tickets = []
  running : e.running = 0
  limit : e.limit = max limit 1

theorem Executor.idle_create (limit : Nat) : (create limit).Idle limit :=
  ⟨LockTable.sound_empty, rfl, rfl, rfl⟩

namespace Pool

theorem ne_of_perm_stakes {locks : LockTable} (hl : locks.Sound)
    {earlier later : List (Nat × EncodedKey × Bool)} {s : Nat × EncodedKey × Bool}
    (h : (earlier ++ s :: later).Perm (locks.tickets.map Ticket.stake)) :
    (∀ s' ∈ earlier, s'.1 ≠ s.1) ∧ ∀ s' ∈ later, s'.1 ≠ s.1 := by
  have hnumbers : ((earlier ++ s :: later).map Prod.fst).Nodup := by
    apply (h.map Prod.fst).nodup_iff.2
    simpa [Function.comp_def, Ticket.stake] using hl.distinct
  have hfront : ((s :: (earlier ++ later)).map Prod.fst).Nodup :=
    (List.perm_middle.map Prod.fst).nodup_iff.1 hnumbers
  have hother (s' : Nat × EncodedKey × Bool) (hs' : s' ∈ earlier ++ later) : s'.1 ≠ s.1 := by
    intro heq
    exact (List.nodup_cons.1 hfront).1 (List.mem_map.2 ⟨s', hs', heq⟩)
  exact ⟨fun s' h => hother s' (List.mem_append_left _ h),
    fun s' h => hother s' (List.mem_append_right _ h)⟩

theorem map_holdStake {number : Nat} {ss : List (Nat × EncodedKey × Bool)}
    (h : ∀ s ∈ ss, s.1 ≠ number) : ss.map (holdStake number) = ss := by
  conv_rhs => rw [← List.map_id ss]
  apply List.map_congr_left
  intro s hs
  exact if_neg (h s hs)

structure Sound (limit : Nat) (bundles : List (EncodedKey × Work α)) (p : Pool α) : Prop where
  bundles : p.tasks.map (fun t => (t.key, t.work)) = bundles
  locks : p.executor.locks.Sound
  /-- The tickets of the table are those of the tasks. -/
  stakes : (p.tasks.filterMap Task.stake?).Perm (p.executor.locks.tickets.map Ticket.stake)
  /-- The permits that are taken are those of the tasks that run. -/
  permits : p.executor.running = p.tasks.countP Task.isActive
  limit : p.executor.limit = max limit 1
  bounded : p.executor.running ≤ p.executor.limit
  faithful : ∀ t ∈ p.tasks, t.Faithful

variable {limit : Nat} {bundles : List (EncodedKey × Work α)} {p q : Pool α}

theorem sound_start {e : Executor} (he : e.Idle limit) (bundles : List (EncodedKey × Work α)) :
    Sound limit bundles (start e bundles) where
  bundles := by simp [start, Task.start, Function.comp_def]
  locks := he.locks
  stakes := by
    have hnone : (bundles.map Task.start).filterMap Task.stake? = [] := by
      simp [Task.start, Task.stake?]
    simp only [start, hnone, he.tickets, List.map_nil, List.Perm.refl]
  permits := by
    have hnone : (bundles.map Task.start).countP Task.isActive = 0 := by
      simp [List.countP_eq_zero, Task.start, Task.isActive]
    exact he.running.trans hnone.symm
  limit := he.limit
  bounded := by simp only [start, he.running, Nat.zero_le]
  faithful := by
    intro t ht
    obtain ⟨bundle, -, rfl⟩ := List.mem_map.1 ht
    trivial

theorem steps_iff : p.Steps q ↔ ∃ before t after t' e, p.tasks = before ++ t :: after ∧
    t.Step p.executor t' e ∧ q = ⟨before ++ t' :: after, e⟩ := by
  constructor
  · intro h
    obtain ⟨index, h⟩ := h
    simp only [step?, Option.bind_eq_bind, Option.bind_eq_some_iff, Option.pure_def,
      Option.some.injEq] at h
    obtain ⟨t, ht, ⟨t', e⟩, hstep, rfl⟩ := h
    obtain ⟨hindex, rfl⟩ := List.getElem?_eq_some_iff.1 ht
    obtain ⟨before, after, htasks, -, hset⟩ :
        ∃ before after, p.tasks = before ++ p.tasks[index] :: after ∧ before.length = index ∧
          p.tasks.set index t' = before ++ t' :: after := List.exists_of_set hindex
    exact ⟨before, _, after, t', e, htasks, Task.step?_eq_some_iff.1 hstep, by rw [hset]⟩
  · intro h
    obtain ⟨before, t, after, t', e, htasks, hstep, rfl⟩ := h
    refine ⟨before.length, ?_⟩
    have ht : p.tasks[before.length]? = some t := by simp [htasks]
    have hset : p.tasks.set before.length t' = before ++ t' :: after := by simp [htasks]
    simp only [step?, ht, Task.step?_eq_some_iff.2 hstep, hset, Option.bind_eq_bind,
      Option.bind_some, Option.pure_def]

theorem Sound.stakes_step (hp : p.Sound limit bundles) {before after : List (Task α)}
    {t t' : Task α} {e : Executor} (htasks : p.tasks = before ++ t :: after)
    (h : t.Step p.executor t' e) :
    ((before ++ t' :: after).filterMap Task.stake?).Perm (e.locks.tickets.map Ticket.stake) := by
  have hstakes := hp.stakes
  rw [htasks, List.filterMap_append] at hstakes
  rw [List.filterMap_append]
  generalize before.filterMap Task.stake? = earlier at hstakes ⊢
  cases h with
  | queue phase =>
    have hnone : t.stake? = none := by simp only [Task.stake?, phase]
    rw [List.filterMap_cons_none hnone] at hstakes
    rw [LockTable.tickets_enter, List.map_append]
    exact List.perm_middle.trans ((hstakes.cons _).trans (List.perm_append_singleton _ _).symm)
  | @lock ticket phase granted =>
    have hsome : t.stake? = some (ticket, t.key, false) := by simp only [Task.stake?, phase]
    rw [List.filterMap_cons_some hsome] at hstakes
    obtain ⟨hearlier, hlater⟩ := ne_of_perm_stakes hp.locks hstakes
    -- The number of the ticket is in no other stake, so the grant changes this one alone.
    have hmap := hstakes.map (holdStake ticket)
    rw [List.map_append, List.map_cons, map_holdStake hearlier, map_holdStake hlater,
      List.map_map] at hmap
    rw [LockTable.acquire_granted granted, List.map_map]
    have hstake : Ticket.stake ∘ LockTable.grant ticket = holdStake ticket ∘ Ticket.stake :=
      funext (Ticket.stake_grant ticket)
    rw [hstake]
    rw [holdStake, if_pos rfl] at hmap
    exact hmap
  | @permit ticket phase free =>
    have hsome : t.stake? = some (ticket, t.key, true) := by simp only [Task.stake?, phase]
    rw [List.filterMap_cons_some hsome] at hstakes
    exact hstakes
  | @run ticket phase =>
    have hsome : t.stake? = some (ticket, t.key, true) := by simp only [Task.stake?, phase]
    rw [List.filterMap_cons_some hsome] at hstakes
    exact hstakes
  | @release ticket result phase =>
    have hsome : t.stake? = some (ticket, t.key, true) := by simp only [Task.stake?, phase]
    rw [List.filterMap_cons_some hsome] at hstakes
    obtain ⟨hearlier, hlater⟩ := ne_of_perm_stakes hp.locks hstakes
    have hfilter := hstakes.filter (·.1 != ticket)
    rw [List.filter_append, List.filter_cons_of_neg (by simp), List.filter_map,
      List.filter_eq_self.2 (by simpa using hearlier),
      List.filter_eq_self.2 (by simpa using hlater)] at hfilter
    exact hfilter

theorem Sound.step (hp : p.Sound limit bundles) (h : p.Steps q) : q.Sound limit bundles := by
  obtain ⟨before, t, after, t', e, htasks, hstep, rfl⟩ := steps_iff.1 h
  have hbundles := hp.bundles
  have hpermits := hp.permits
  have hfaithful := hp.faithful
  rw [htasks] at hbundles hpermits hfaithful
  have hstakes := hp.stakes_step htasks hstep
  refine ⟨?_, ?_, hstakes, ?_, ?_, ?_, ?_⟩
  · rw [← hbundles]
    simp [hstep.bundle]
  · cases hstep with
    | queue => exact hp.locks.enter _
    | lock => exact hp.locks.acquire _
    | release => exact hp.locks.leave _
    | _ => exact hp.locks
  · rw [List.perm_middle.countP_eq, List.countP_cons] at hpermits ⊢
    exact hstep.permits hpermits
  · cases hstep <;> exact hp.limit
  · have hbounded := hp.bounded
    cases hstep with
    | permit phase free => exact Nat.succ_le_of_lt (of_decide_eq_true free)
    | release phase => exact Nat.le_trans (Nat.sub_le _ _) hbounded
    | _ => exact hbounded
  · intro u hu
    rcases List.mem_append.1 hu with hu | hu
    · exact hfaithful u (by simp [hu])
    · rcases List.mem_cons.1 hu with rfl | hu
      · exact hstep.faithful (hfaithful t (by simp))
      · exact hfaithful u (by simp [hu])

theorem Sound.steps (hp : p.Sound limit bundles) (h : Relation.ReflTransGen Steps p q) :
    q.Sound limit bundles := by
  induction h with
  | refl => exact hp
  | tail _ hstep ih => exact ih.step hstep

theorem Sound.countP_active_le (hp : p.Sound limit bundles) (key : EncodedKey) :
    p.tasks.countP (fun t => t.key = key ∧ t.isActive = true) ≤ 1 := by
  let holds (s : Nat × EncodedKey × Bool) : Bool := s.2.1 = key ∧ s.2.2 = true
  calc p.tasks.countP (fun t => t.key = key ∧ t.isActive = true)
      ≤ (p.tasks.filterMap Task.stake?).countP holds := by
        rw [List.countP_filterMap]
        apply List.countP_mono_left
        intro t _
        cases hphase : t.phase <;> simp [Task.isActive, Task.stake?, hphase, holds]
    _ = (p.executor.locks.tickets.map Ticket.stake).countP holds := hp.stakes.countP_eq _
    _ = p.executor.locks.tickets.countP (fun k => k.key = key ∧ k.holds = true) := by
        rw [List.countP_map]
        rfl
    _ ≤ 1 := hp.locks.countP_holds_le key

theorem exists_steps {t t' : Task α} {e : Executor} (ht : t ∈ p.tasks)
    (h : t.Step p.executor t' e) : ∃ q, p.Steps q := by
  obtain ⟨before, after, htasks⟩ := List.append_of_mem ht
  exact ⟨_, steps_iff.2 ⟨before, t, after, t', e, htasks, h, rfl⟩⟩

theorem Sound.acquire_of_all_wait (hp : p.Sound limit bundles)
    (hwait : ∀ t ∈ p.tasks, ∀ s, t.stake? = some s → s.2.2 = false) {t : Task α} (ht : t ∈ p.tasks)
    {ticket : Nat} (hphase : t.phase = .waiting ticket) :
    (p.executor.locks.acquire ticket).1 = true := by
  have hfree (k : Ticket) (hk : k ∈ p.executor.locks.tickets) : k.holds = false := by
    have hmem : k.stake ∈ p.tasks.filterMap Task.stake? :=
      hp.stakes.mem_iff.2 (List.mem_map_of_mem hk)
    obtain ⟨t, ht, hstake⟩ := List.mem_filterMap.1 hmem
    exact hwait t ht k.stake hstake
  have hmem : (ticket, t.key, false) ∈ p.executor.locks.tickets.map Ticket.stake := by
    apply hp.stakes.mem_iff.1
    exact List.mem_filterMap.2 ⟨t, ht, by simp only [Task.stake?, hphase]⟩
  obtain ⟨k, hk, hstake⟩ := List.mem_map.1 hmem
  have hnumber : k.number = ticket := congrArg Prod.fst hstake
  rw [← hnumber, hp.locks.acquire_eq hk, if_neg]
  simpa using fun l hl _ => hfree l hl

theorem Sound.exists_steps (hp : p.Sound limit bundles) (h : p.isFinished = false) :
    ∃ q, p.Steps q := by
  -- A task that waits for nothing takes its step.
  by_cases hready : ∃ t ∈ p.tasks, t.phase = .created ∨ t.isActive = true
  · obtain ⟨t, ht, hphase⟩ := hready
    cases hcase : t.phase with
    | created => exact Pool.exists_steps ht (.queue hcase)
    | running ticket => exact Pool.exists_steps ht (.run hcase)
    | ended ticket result => exact Pool.exists_steps ht (.release hcase)
    | _ => simp [Task.isActive, hcase] at hphase
  -- Where no task runs, all permits are free for one that has its lock.
  by_cases hlocked : ∃ t ∈ p.tasks, ∃ ticket, t.phase = .locked ticket
  · obtain ⟨t, ht, ticket, hphase⟩ := hlocked
    have hnone : p.executor.running = 0 := by
      rw [hp.permits, List.countP_eq_zero]
      exact fun t ht hactive => hready ⟨t, ht, .inr hactive⟩
    have hfree : p.executor.hasPermit = true := by
      simp only [Executor.hasPermit, hnone, hp.limit, decide_eq_true_eq]
      omega
    exact Pool.exists_steps ht (.permit hphase hfree)
  -- Else every task is finished or waits for a lock, and nobody holds one.
  have hrest (t : Task α) (ht : t ∈ p.tasks) :
      (∃ ticket, t.phase = .waiting ticket) ∨ ∃ result, t.phase = .finished result := by
    cases hphase : t.phase with
    | created => exact absurd ⟨t, ht, .inl hphase⟩ hready
    | waiting ticket => exact .inl ⟨ticket, rfl⟩
    | locked ticket => exact absurd ⟨t, ht, ticket, hphase⟩ hlocked
    | running ticket => exact absurd ⟨t, ht, .inr (by simp only [Task.isActive, hphase])⟩ hready
    | ended ticket result =>
      exact absurd ⟨t, ht, .inr (by simp only [Task.isActive, hphase])⟩ hready
    | finished result => exact .inr ⟨result, rfl⟩
  have hopen : ∃ t ∈ p.tasks, t.result? = none := by
    simpa [isFinished] using h
  obtain ⟨t, ht, hresult⟩ := hopen
  rcases hrest t ht with ⟨ticket, hphase⟩ | ⟨result, hphase⟩
  · refine Pool.exists_steps ht (.lock hphase (hp.acquire_of_all_wait ?_ ht hphase))
    intro u hu s hs
    rcases hrest u hu with ⟨ticket, hphase⟩ | ⟨result, hphase⟩ <;>
      simp only [Task.stake?, hphase, Option.some.injEq, reduceCtorEq] at hs
    rw [← hs]
  · simp [Task.result?, hphase] at hresult

theorem exists_phase_of_isFinished (h : p.isFinished = true) {t : Task α} (ht : t ∈ p.tasks) :
    ∃ result, t.phase = .finished result := by
  have hfinished := List.all_eq_true.1 h t ht
  cases hphase : t.phase with
  | finished result => exact ⟨result, rfl⟩
  | _ => simp [Task.result?, hphase] at hfinished

theorem Sound.results_eq (hp : p.Sound limit bundles) (h : p.isFinished = true) :
    p.results = bundles.map (·.2.result) := by
  have hresult (t : Task α) (ht : t ∈ p.tasks) : t.result? = some t.work.result := by
    obtain ⟨result, hphase⟩ := exists_phase_of_isFinished h ht
    have hfaithful := hp.faithful t ht
    simp only [Task.Faithful, hphase] at hfaithful
    simp only [Task.result?, hphase, hfaithful]
  rw [← hp.bundles, List.map_map, results, List.filterMap_congr hresult, ← List.filterMap_eq_map]
  rfl

theorem Sound.idle (hp : p.Sound limit bundles) (h : p.isFinished = true) :
    p.executor.Idle limit where
  locks := hp.locks
  tickets := by
    have hnone : p.tasks.filterMap Task.stake? = [] := by
      apply List.filterMap_eq_nil_iff.2
      intro t ht
      obtain ⟨result, hphase⟩ := exists_phase_of_isFinished h ht
      simp only [Task.stake?, hphase]
    have hstakes := hp.stakes
    rw [hnone] at hstakes
    exact List.map_eq_nil_iff.1 hstakes.symm.eq_nil
  running := by
    rw [hp.permits, List.countP_eq_zero]
    intro t ht
    obtain ⟨result, hphase⟩ := exists_phase_of_isFinished h ht
    simp [Task.isActive, hphase]
  limit := hp.limit

def remaining (p : Pool α) : Nat := (p.tasks.map Task.remaining).sum

theorem remaining_of_steps (h : p.Steps q) : p.remaining = q.remaining + 1 := by
  obtain ⟨before, t, after, t', e, htasks, hstep, rfl⟩ := steps_iff.1 h
  have hless := hstep.remaining
  simp only [remaining, htasks, List.map_append, List.map_cons, List.sum_append, List.sum_cons]
  omega

theorem remaining_start (e : Executor) (bundles : List (EncodedKey × Work α)) :
    (start e bundles).remaining = 5 * bundles.length := by
  have hfive (bundle : EncodedKey × Work α) : (Task.start bundle).remaining = 5 := rfl
  simp [remaining, start, Function.comp_def, hfive, Nat.mul_comm]

theorem steps_of_advance? (h : p.advance? = some q) : p.Steps q := by
  obtain ⟨index, -, hstep⟩ := List.exists_of_findSome?_eq_some h
  exact ⟨index, hstep⟩

theorem advance?_eq_none (h : p.advance? = none) : ¬ p.Steps q := by
  intro hsteps
  obtain ⟨index, hstep⟩ := hsteps
  have hindex : index < p.tasks.length := by
    by_contra hout
    simp [step?, List.getElem?_eq_none (Nat.le_of_not_lt hout)] at hstep
  rw [List.findSome?_eq_none_iff.1 h index (List.mem_range.2 hindex)] at hstep
  cases hstep

theorem Sound.drain (hp : p.Sound limit bundles) {fuel : Nat} (h : p.remaining ≤ fuel) :
    (Pool.drain fuel p).Sound limit bundles ∧ (Pool.drain fuel p).isFinished = true := by
  induction fuel generalizing p with
  | zero =>
    refine ⟨hp, ?_⟩
    by_contra hopen
    obtain ⟨q, hstep⟩ := hp.exists_steps (Bool.eq_false_iff.2 hopen)
    have hless := remaining_of_steps hstep
    omega
  | succ fuel ih =>
    cases hnext : p.advance? with
    | none =>
      have hend : Pool.drain (fuel + 1) p = p := by rw [Pool.drain, hnext]
      rw [hend]
      refine ⟨hp, ?_⟩
      by_contra hopen
      obtain ⟨q, hstep⟩ := hp.exists_steps (Bool.eq_false_iff.2 hopen)
      exact advance?_eq_none hnext hstep
    | some q =>
      have hgo : Pool.drain (fuel + 1) p = Pool.drain fuel q := by rw [Pool.drain, hnext]
      have hstep := steps_of_advance? hnext
      have hless := remaining_of_steps hstep
      rw [hgo]
      exact ih (hp.step hstep) (by omega)

/-- Bundles under any order of the steps of their tasks, on an executor that nobody else uses. No
two bundles of one key run at a time, and no more in all than the limit. The permits taken are those
of other tasks than one that waits for a lock. As long as a task is not finished, some task can take
a step. Once all are, each result is what the bundle in its place comes to, the failure of a task
where it panics and nowhere else unless its own work fails so, and the executor is as free as
before. The order in which the executor takes the steps comes to that end. -/
theorem results_of_steps {limit : Nat} {e : Executor} (he : e.Idle limit)
    (bundles : List (EncodedKey × Work α)) {p : Pool α}
    (h : Relation.ReflTransGen Steps (start e bundles) p) :
    (∀ key, p.tasks.countP (fun t => t.key = key ∧ t.isActive = true) ≤ 1) ∧
      p.tasks.countP Task.isActive ≤ max limit 1 ∧
      (∀ before t after ticket, p.tasks = before ++ t :: after → t.phase = .waiting ticket →
        p.executor.running = (before ++ after).countP Task.isActive) ∧
      (p.isFinished = false → ∃ q, p.Steps q) ∧
      (p.isFinished = true →
        p.results = bundles.map (·.2.result) ∧
        (∀ (index : Nat) (key : EncodedKey) (work : Work α), bundles[index]? = some (key, work) →
          (∀ detail, work ≠ .returns (.error (.internal (.taskFailed detail)))) →
          ((∃ detail, p.results[index]? = some (.error (.internal (.taskFailed detail)))) ↔
            ∃ detail, work = .panics detail)) ∧
        p.executor.Idle limit) ∧
      (e.runBundles bundles).1 = bundles.map (·.2.result) := by
  have hstart : (start e bundles).Sound limit bundles := sound_start he bundles
  have hp : p.Sound limit bundles := hstart.steps h
  refine ⟨hp.countP_active_le, ?_, ?_, hp.exists_steps,
    fun hfinished => ⟨hp.results_eq hfinished, ?_, hp.idle hfinished⟩, ?_⟩
  · rw [← hp.permits, ← hp.limit]
    exact hp.bounded
  · intro before t after ticket htasks hphase
    rw [hp.permits, htasks, List.perm_middle.countP_eq, List.countP_cons]
    simp [Task.isActive, hphase]
  · intro index key work hwork hown
    have hresult : p.results[index]? = some work.result := by
      rw [hp.results_eq hfinished, List.getElem?_map, hwork]
      rfl
    rw [hresult]
    cases work with
    | returns result =>
      simp only [Work.result, Option.some.injEq, reduceCtorEq, exists_false, iff_false, not_exists]
      exact fun detail heq => hown detail (heq ▸ rfl)
    | panics detail => simp [Work.result]
  · obtain ⟨hend, hfinished⟩ := hstart.drain (Nat.le_of_eq (remaining_start e bundles))
    exact hend.results_eq hfinished

def play (p : Pool α) (order : List Nat) : Option (Pool α) := order.foldlM step? p

theorem steps_of_play {order : List Nat} (h : p.play order = some q) :
    Relation.ReflTransGen Steps p q := by
  induction order generalizing p with
  | nil =>
    cases h
    exact .refl
  | cons index order ih =>
    rw [play, List.foldlM_cons, Option.bind_eq_bind, Option.bind_eq_some_iff] at h
    obtain ⟨next, hstep, hrest⟩ := h
    exact .head ⟨index, hstep⟩ (ih hrest)

/-- Two bundles of one key, the second of which panics, and one of another key. -/
def twoKeys : List (EncodedKey × Work Nat) :=
  [(⟨[7]⟩, .returns (.ok 1)), (⟨[7]⟩, .panics "boom"), (⟨[8]⟩, .returns (.ok 3))]

theorem twoKeys_contended :
    ∃ p : Pool Nat, Relation.ReflTransGen Steps (start (.create 0) twoKeys) p ∧
      p.isFinished = false ∧ p.executor.running = 1 ∧
      p.tasks.countP Task.isActive ≤ 1 ∧ (∃ q, p.Steps q) ∧
      ((Executor.create 0).runBundles twoKeys).1 =
        [.ok 1, .error (.internal (.taskFailed "boom")), .ok 3] := by
  have hplayed : ((start (.create 0) twoKeys).play [1, 0, 2, 0, 2, 0]).any (fun p =>
      !p.isFinished && p.executor.running == 1) = true := by
    decide +kernel
  obtain ⟨p, hp, hstate⟩ := (Option.any_eq_true _ _).1 hplayed
  simp only [Bool.and_eq_true, Bool.not_eq_true', beq_iff_eq] at hstate
  have hsteps := steps_of_play hp
  obtain ⟨-, hbound, -, hnext, -, hresults⟩ :=
    results_of_steps (Executor.idle_create 0) twoKeys hsteps
  exact ⟨p, hsteps, hstate.1, hstate.2, hbound, hnext hstate.1, hresults⟩

end Pool

end StreamOperator
