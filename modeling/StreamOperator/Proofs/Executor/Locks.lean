import StreamOperator.Executor.Locks
import Mathlib.Data.List.Induction
import Mathlib.Data.List.Nodup

/-! A table of locks under any order of the steps of its users and of pruning. An entry that is in
use keeps its mutex, so the users of a key all wait for one mutex, and whoever holds it has the key
alone. Pruning drops the entries of the keys that nobody uses and no others. -/

namespace StreamOperator

/-- A step of a user of the table, who may give up at any time, or a pruning. -/
inductive LockCall
  | enter (key : EncodedKey)
  | acquire (number : Nat)
  | leave (number : Nat)
  | prune

namespace LockTable

def call (t : LockTable) : LockCall → LockTable
  | .enter key => (t.enter key).2
  | .acquire number => (t.acquire number).2
  | .leave number => t.leave number
  | .prune => t.prune.2

def ofCalls (cs : List LockCall) : LockTable := cs.foldl call empty

def Uses (t : LockTable) (key : EncodedKey) : Prop := ∃ k ∈ t.tickets, k.key = key

instance (t : LockTable) (key : EncodedKey) : Decidable (t.Uses key) :=
  inferInstanceAs (Decidable (∃ k ∈ t.tickets, k.key = key))

structure Sound (t : LockTable) : Prop where
  /-- The users of a key share the mutex of its entry. -/
  shared : ∀ k ∈ t.tickets, t.entries[k.key]? = some k.mutex
  apart : ∀ (key key' : EncodedKey) (mutex : Nat),
    t.entries[key]? = some mutex → t.entries[key']? = some mutex → key = key'
  known : ∀ (key : EncodedKey) (mutex : Nat), t.entries[key]? = some mutex → mutex < t.nextMutex
  exclusive : ∀ k ∈ t.tickets, ∀ l ∈ t.tickets, k.holds → l.holds → k.mutex = l.mutex →
    k.number = l.number
  distinct : (t.tickets.map Ticket.number).Nodup
  numbered : ∀ k ∈ t.tickets, k.number < t.nextTicket

variable {t : LockTable}

theorem sound_empty : empty.Sound := by
  constructor <;> simp [empty]

theorem Sound.mutex_eq_iff (ht : t.Sound) {k l : Ticket} (hk : k ∈ t.tickets) (hl : l ∈ t.tickets) :
    k.mutex = l.mutex ↔ k.key = l.key := by
  have hkey := ht.shared k hk
  have hlkey := ht.shared l hl
  constructor
  · intro h
    exact ht.apart _ _ k.mutex hkey (h ▸ hlkey)
  · intro h
    rw [h, hlkey] at hkey
    exact (Option.some.inj hkey).symm

theorem Sound.eq_of_number_eq (ht : t.Sound) {k l : Ticket} (hk : k ∈ t.tickets)
    (hl : l ∈ t.tickets) (h : k.number = l.number) : k = l :=
  List.inj_on_of_nodup_map ht.distinct hk hl h

theorem Sound.find? (ht : t.Sound) {k : Ticket} (hk : k ∈ t.tickets) :
    t.tickets.find? (·.number == k.number) = some k := by
  cases hfind : t.tickets.find? (·.number == k.number) with
  | none => simpa using List.find?_eq_none.1 hfind k hk
  | some l =>
    have hnumber : l.number = k.number := by simpa using List.find?_some hfind
    rw [ht.eq_of_number_eq (List.mem_of_find?_eq_some hfind) hk hnumber]

theorem Sound.isHeld_iff (ht : t.Sound) {k : Ticket} (hk : k ∈ t.tickets) :
    t.isHeld k.mutex = true ↔ ∃ l ∈ t.tickets, l.key = k.key ∧ l.holds = true := by
  simp only [isHeld, List.any_eq_true, Bool.and_eq_true, beq_iff_eq]
  constructor
  · intro h
    obtain ⟨l, hl, hholds, hmutex⟩ := h
    exact ⟨l, hl, (ht.mutex_eq_iff hl hk).1 hmutex, hholds⟩
  · intro h
    obtain ⟨l, hl, hkey, hholds⟩ := h
    exact ⟨l, hl, hholds, (ht.mutex_eq_iff hl hk).2 hkey⟩

theorem Sound.inUse_iff (ht : t.Sound) {key : EncodedKey} {mutex : Nat}
    (h : t.entries[key]? = some mutex) : t.inUse mutex = true ↔ t.Uses key := by
  simp only [inUse, List.any_eq_true, beq_iff_eq, Uses]
  constructor
  · intro hused
    obtain ⟨k, hk, rfl⟩ := hused
    exact ⟨k, hk, ht.apart _ _ _ (ht.shared k hk) h⟩
  · intro hused
    obtain ⟨k, hk, rfl⟩ := hused
    rw [ht.shared k hk] at h
    exact ⟨k, hk, Option.some.inj h⟩

theorem Sound.mutexOf (ht : t.Sound) (key : EncodedKey) :
    (t.mutexOf key).2.Sound ∧ (t.mutexOf key).2.entries[key]? = some (t.mutexOf key).1 := by
  cases h : t.entries[key]? with
  | some mutex =>
    have hsame : t.mutexOf key = (mutex, t) := by rw [LockTable.mutexOf, h]
    rw [hsame]
    exact ⟨ht, h⟩
  | none =>
    have hnew : t.mutexOf key = (t.nextMutex, { t with
        entries := t.entries.insert key t.nextMutex
        nextMutex := t.nextMutex + 1 }) := by rw [LockTable.mutexOf, h]
    have hkept (k : Ticket) (hk : k ∈ t.tickets) : key ≠ k.key := by
      intro heq
      rw [heq, ht.shared k hk] at h
      cases h
    have hfresh {key' : EncodedKey} {mutex : Nat} (h' : t.entries[key']? = some mutex) :
        mutex ≠ t.nextMutex := Nat.ne_of_lt (ht.known key' mutex h')
    rw [hnew]
    refine ⟨⟨?_, ?_, ?_, ht.exclusive, ht.distinct, ht.numbered⟩, by simp⟩
    · intro k hk
      simpa [Std.ExtTreeMap.getElem?_insert, hkept k hk] using ht.shared k hk
    · intro key₁ key₂ mutex h₁ h₂
      simp only [Std.ExtTreeMap.getElem?_insert, Std.LawfulEqOrd.compare_eq_iff_eq] at h₁ h₂
      split at h₁ <;> split at h₂
      next hkey₁ hkey₂ => rw [← hkey₁, ← hkey₂]
      next => exact absurd (Option.some.inj h₁).symm (hfresh h₂)
      next => exact absurd (Option.some.inj h₂).symm (hfresh h₁)
      next => exact ht.apart key₁ key₂ mutex h₁ h₂
    · intro key₁ mutex h₁
      simp only [Std.ExtTreeMap.getElem?_insert, Std.LawfulEqOrd.compare_eq_iff_eq] at h₁ ⊢
      split at h₁
      next => exact Nat.lt_succ_of_le (Nat.le_of_eq (Option.some.inj h₁).symm)
      next => exact Nat.lt_succ_of_lt (ht.known key₁ mutex h₁)

theorem tickets_enter (t : LockTable) (key : EncodedKey) :
    (t.enter key).2.tickets =
      t.tickets ++ [⟨(t.enter key).1, key, (t.mutexOf key).1, false⟩] := by
  unfold LockTable.enter LockTable.mutexOf
  cases t.entries[key]? <;> rfl

theorem Sound.enter (ht : t.Sound) (key : EncodedKey) : (t.enter key).2.Sound := by
  obtain ⟨hs, hkey⟩ := ht.mutexOf key
  have hold {k : Ticket} (hholds : k.holds = true) (hk : k ∈ (t.enter key).2.tickets) :
      k ∈ (t.mutexOf key).2.tickets := by
    simp only [LockTable.enter, List.mem_append, List.mem_singleton] at hk
    apply hk.resolve_right
    intro h
    rw [h] at hholds
    cases hholds
  refine ⟨?_, hs.apart, hs.known, ?_, ?_, ?_⟩
  · simp only [LockTable.enter, List.forall_mem_append, List.forall_mem_singleton]
    exact ⟨hs.shared, hkey⟩
  · intro k hk l hl hkh hlh
    exact hs.exclusive k (hold hkh hk) l (hold hlh hl) hkh hlh
  · simp only [LockTable.enter, List.map_append, List.map_cons, List.map_nil]
    apply List.nodup_append.2
    refine ⟨hs.distinct, by simp, ?_⟩
    simp only [List.mem_map, List.mem_singleton]
    intro number h number' h'
    obtain ⟨k, hk, rfl⟩ := h
    exact h' ▸ Nat.ne_of_lt (hs.numbered k hk)
  · simp only [LockTable.enter, List.forall_mem_append, List.forall_mem_singleton]
    exact ⟨fun k hk => Nat.lt_succ_of_lt (hs.numbered k hk), Nat.lt_succ_self _⟩

def grant (number : Nat) (k : Ticket) : Ticket :=
  if k.number = number then { k with holds := true } else k

@[simp] theorem number_grant (number : Nat) (k : Ticket) : (grant number k).number = k.number := by
  unfold grant
  split <;> rfl

@[simp] theorem key_grant (number : Nat) (k : Ticket) : (grant number k).key = k.key := by
  unfold grant
  split <;> rfl

@[simp] theorem mutex_grant (number : Nat) (k : Ticket) : (grant number k).mutex = k.mutex := by
  unfold grant
  split <;> rfl

theorem holds_grant_iff {number : Nat} {k : Ticket} :
    (grant number k).holds = true ↔ k.number = number ∨ k.holds = true := by
  unfold grant
  by_cases h : k.number = number <;> simp [h]

theorem acquire_granted {number : Nat} (h : (t.acquire number).1 = true) :
    (t.acquire number).2 = { t with tickets := t.tickets.map (grant number) } := by
  cases hfind : t.tickets.find? (·.number == number) with
  | none => simp [LockTable.acquire, hfind] at h
  | some k =>
    cases hheld : t.isHeld k.mutex with
    | true => simp [LockTable.acquire, hfind, hheld] at h
    | false =>
      simp only [LockTable.acquire, hfind, hheld, Bool.false_eq_true, if_false]
      rfl

theorem Sound.acquire_eq (ht : t.Sound) {k : Ticket} (hk : k ∈ t.tickets) :
    t.acquire k.number =
      if ∃ l ∈ t.tickets, l.key = k.key ∧ l.holds = true then (false, t)
      else (true, { t with tickets := t.tickets.map (grant k.number) }) := by
  simp only [LockTable.acquire, ht.find? hk, ht.isHeld_iff hk]
  rfl

theorem acquire_of_not_mem {number : Nat} (h : ∀ k ∈ t.tickets, k.number ≠ number) :
    t.acquire number = (false, t) := by
  have hfind : t.tickets.find? (·.number == number) = none := by
    apply List.find?_eq_none.2
    simpa using h
  simp only [LockTable.acquire, hfind]

theorem Sound.grant (ht : t.Sound) {k : Ticket} (hk : k ∈ t.tickets)
    (hfree : ∀ l ∈ t.tickets, l.key = k.key → l.holds = false) :
    Sound { t with tickets := t.tickets.map (grant k.number) } := by
  refine ⟨?_, ht.apart, ht.known, ?_, ?_, ?_⟩
  · simpa using ht.shared
  · simp only [List.forall_mem_map, holds_grant_iff, number_grant, mutex_grant]
    intro l hl l' hl' h h' hmutex
    -- One of the two may be the ticket that is granted, and then the other one holds nothing.
    have hkey := (ht.mutex_eq_iff hl hl').1 hmutex
    by_cases hlk : l.number = k.number <;> by_cases hlk' : l'.number = k.number
    · rw [hlk, hlk']
    · have heq := ht.eq_of_number_eq hl hk hlk
      have hnone := hfree l' hl' (heq ▸ hkey.symm)
      simp [hlk', hnone] at h'
    · have heq := ht.eq_of_number_eq hl' hk hlk'
      have hnone := hfree l hl (heq ▸ hkey)
      simp [hlk, hnone] at h
    · exact ht.exclusive l hl l' hl' (h.resolve_left hlk) (h'.resolve_left hlk') hmutex
  · simpa [Function.comp_def] using ht.distinct
  · simpa using ht.numbered

theorem Sound.acquire (ht : t.Sound) (number : Nat) : (t.acquire number).2.Sound := by
  by_cases hmem : ∃ k ∈ t.tickets, k.number = number
  · obtain ⟨k, hk, rfl⟩ := hmem
    rw [ht.acquire_eq hk]
    by_cases hheld : ∃ l ∈ t.tickets, l.key = k.key ∧ l.holds = true
    · rw [if_pos hheld]
      exact ht
    · rw [if_neg hheld]
      apply ht.grant hk
      simpa using hheld
  · rw [acquire_of_not_mem (by simpa using hmem)]
    exact ht

theorem Sound.leave (ht : t.Sound) (number : Nat) : (t.leave number).Sound := by
  have hsub : (t.leave number).tickets.Sublist t.tickets := List.filter_sublist
  refine ⟨fun k hk => ht.shared k (hsub.subset hk), ht.apart, ht.known, ?_, ?_, ?_⟩
  · intro k hk l hl
    exact ht.exclusive k (hsub.subset hk) l (hsub.subset hl)
  · exact ht.distinct.sublist (hsub.map _)
  · exact fun k hk => ht.numbered k (hsub.subset hk)

theorem getElem?_prune (t : LockTable) (key : EncodedKey) :
    t.prune.2.entries[key]? = t.entries[key]?.filter t.inUse := by
  simp only [LockTable.prune, Std.ExtTreeMap.getElem?_filter, Option.pfilter_eq_filter]

theorem Sound.getElem?_prune (ht : t.Sound) (key : EncodedKey) :
    t.prune.2.entries[key]? = if t.Uses key then t.entries[key]? else none := by
  rw [LockTable.getElem?_prune]
  cases h : t.entries[key]? with
  | none => simp
  | some mutex => simp [Option.filter_some, ht.inUse_iff h]

theorem Sound.prune (ht : t.Sound) : t.prune.2.Sound := by
  have hold {key : EncodedKey} {mutex : Nat} (h : t.prune.2.entries[key]? = some mutex) :
      t.entries[key]? = some mutex := by
    rw [LockTable.getElem?_prune] at h
    exact (Option.filter_eq_some_iff.1 h).1
  refine ⟨?_, fun key key' mutex h h' => ht.apart key key' mutex (hold h) (hold h'),
    fun key mutex h => ht.known key mutex (hold h), ht.exclusive, ht.distinct, ht.numbered⟩
  intro k hk
  rw [ht.getElem?_prune, if_pos ⟨k, hk, rfl⟩]
  exact ht.shared k hk

theorem Sound.call (ht : t.Sound) (c : LockCall) : (t.call c).Sound := by
  cases c with
  | enter key => exact ht.enter key
  | acquire number => exact ht.acquire number
  | leave number => exact ht.leave number
  | prune => exact ht.prune

theorem sound_ofCalls (cs : List LockCall) : (ofCalls cs).Sound := by
  induction cs using List.reverseRecOn with
  | nil => exact sound_empty
  | append_singleton cs c ih =>
    rw [ofCalls, List.foldl_append]
    exact ih.call c

theorem Sound.fst_prune (ht : t.Sound) :
    t.prune.1 = t.entries.keys.countP fun key => ¬ t.Uses key := by
  have hunused : t.entries.toList.countP (fun e => ¬ t.inUse e.2 = true) =
      t.entries.keys.countP fun key => ¬ t.Uses key := by
    rw [← Std.ExtTreeMap.map_fst_toList_eq_keys, List.countP_map]
    apply List.countP_congr
    intro e he
    have hentry : t.entries[e.1]? = some e.2 := Std.ExtTreeMap.mem_toList_iff_getElem?_eq_some.1 he
    simp [ht.inUse_iff hentry]
  have hall := List.length_eq_countP_add_countP (fun e : EncodedKey × Nat => t.inUse e.2)
    (l := t.entries.toList)
  rw [hunused] at hall
  simp only [LockTable.prune, ← Std.ExtTreeMap.length_toList, Std.ExtTreeMap.toList_filter,
    ← List.countP_eq_length_filter]
  omega

theorem Sound.countP_holds_le (ht : t.Sound) (key : EncodedKey) :
    t.tickets.countP (fun k => k.key = key ∧ k.holds = true) ≤ 1 := by
  have hnodup : t.tickets.Nodup := ht.distinct.of_map _
  have hone (k : Ticket) (hk : k ∈ t.tickets) (l : Ticket) (hl : l ∈ t.tickets)
      (h : k.key = key ∧ k.holds = true) (h' : l.key = key ∧ l.holds = true) : k = l := by
    have hmutex := (ht.mutex_eq_iff hk hl).2 (h.1.trans h'.1.symm)
    exact ht.eq_of_number_eq hk hl (ht.exclusive k hk l hl h.2 h'.2 hmutex)
  rw [List.countP_eq_length_filter]
  cases hfilter : t.tickets.filter (fun k => k.key = key ∧ k.holds = true) with
  | nil => exact Nat.zero_le 1
  | cons k rest =>
    cases rest with
    | nil => exact Nat.le_refl 1
    | cons l rest =>
      have hmem (m : Ticket) (h : m ∈ k :: l :: rest) :
          m ∈ t.tickets ∧ m.key = key ∧ m.holds = true := by
        rw [← hfilter, List.mem_filter] at h
        simpa using h
      have hk := hmem k (by simp)
      have hl := hmem l (by simp)
      have hdistinct : (k :: l :: rest).Nodup := hfilter ▸ hnodup.filter _
      simp [hone k hk.1 l hl.1 hk.2 hl.2] at hdistinct

/-- Whatever the users do and whenever the table is pruned, a key has at most one holder. Its
holders and waiters share the mutex of its entry, which is that of no other key, and one that waits
is granted it at most when nobody holds the key. A pruning drops the entries of the keys that nobody
holds or waits for, tells their number, and leaves the users alone. -/
theorem exclusion_of_calls (cs : List LockCall) :
    let t := ofCalls cs
    (∀ key, t.tickets.countP (fun k => k.key = key ∧ k.holds = true) ≤ 1) ∧
      (∀ k ∈ t.tickets, t.entries[k.key]? = some k.mutex) ∧
      (∀ (key key' : EncodedKey) (mutex : Nat),
        t.entries[key]? = some mutex → t.entries[key']? = some mutex → key = key') ∧
      (∀ k ∈ t.tickets, (t.acquire k.number).1 = true →
        ∀ l ∈ t.tickets, l.key = k.key → l.holds = false) ∧
      (∀ key : EncodedKey,
        t.prune.2.entries[key]? = if t.Uses key then t.entries[key]? else none) ∧
      t.prune.1 = t.entries.keys.countP (fun key => ¬ t.Uses key) ∧
      t.prune.2.tickets = t.tickets := by
  intro t
  have ht : t.Sound := sound_ofCalls cs
  refine ⟨ht.countP_holds_le, ht.shared, ht.apart, ?_, ht.getElem?_prune, ht.fst_prune, rfl⟩
  intro k hk hgranted
  rw [ht.acquire_eq hk] at hgranted
  split at hgranted
  next => cases hgranted
  next hfree => simpa using hfree

/-- A pruning between the entry and the grant of a lock, and one before the next user comes. -/
example :
    let t := ofCalls
      [.enter ⟨[7]⟩, .prune, .acquire 0, .prune, .enter ⟨[7]⟩, .enter ⟨[8]⟩, .leave 2]
    (t.acquire 1).1 = false ∧ t.prune.1 = 1 ∧ ((t.leave 0).acquire 1).1 = true := by
  decide +kernel

end LockTable

end StreamOperator
