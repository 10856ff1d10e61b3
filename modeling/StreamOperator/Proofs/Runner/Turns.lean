import StreamOperator.Proofs.Function.Turns
import StreamOperator.Proofs.Runner.Sound

/-! The turns of a call on a runner. The record of a call is made of them: each has the surroundings
that the runner gives it, and where one fails it is the last, the call fails as it did, and the
runner stays as it was. -/

namespace StreamOperator.Runner

variable {μ ι ο ρ σ : Type}

def Keyed (r : Runner μ ι ο ρ σ) : Occasion ι → Option EncodedKey → Prop
  | .element piece, key => r.keyOf piece.value = .ok key
  | .timer _, key => key.isSome
  | .setup, key | .startBundle, key | .finishBundle, key | .teardown, key => key = none

/-- A call of the function as a runner makes it. In a pass the schedule and the watermark move. -/
structure Surrounds (r : Runner μ ι ο ρ σ) (t : Turn μ ι ο ρ σ) : Prop where
  context : t.context = { r.context with
    key := t.context.key
    current := t.occasion.frame?
    schedule := t.context.schedule
    inputWatermark := t.context.inputWatermark }
  key : r.Keyed t.occasion t.context.key
  staged : t.staged.failure = none

theorem surrounds_setup_iff {r : Runner μ ι ο ρ σ} {t : Turn μ ι ο ρ σ} :
    r.setup.2.Surrounds t ↔ r.Surrounds t := by
  rw [setup_frame]
  exact ⟨fun h => ⟨h.context, h.key, h.staged⟩, fun h => ⟨h.context, h.key, h.staged⟩⟩

variable [SideInputReader ρ] [StateStore σ]

structure Tells (r : Runner μ ι ο ρ σ) (turns : List (Turn μ ι ο ρ σ)) (log : List (Event ι ο)) :
    Prop where
  record : log = turns.flatMap (Turn.events r.operator.function)
  surrounds : ∀ t ∈ turns, r.Surrounds t

def GoesOn (r : Runner μ ι ο ρ σ) (log : List (Event ι ο)) : Prop :=
  ∃ turns, r.Tells turns log ∧ Turn.AllWell r.operator.function turns

def Halts (r : Runner μ ι ο ρ σ) (e : ExecutionError) (log : List (Event ι ο)) : Prop :=
  ∃ turns, r.Tells turns log ∧ Turn.Blames r.operator.function turns e

variable {r : Runner μ ι ο ρ σ} {t : Turn μ ι ο ρ σ} {log : List (Event ι ο)} {e : ExecutionError}

theorem goesOn_nil (r : Runner μ ι ο ρ σ) : r.GoesOn [] :=
  ⟨[], ⟨rfl, by simp⟩, fun _ h => by cases h⟩

theorem GoesOn.halts (h : r.GoesOn log) (e : ExecutionError) : r.Halts e log := by
  obtain ⟨turns, htells, hwell⟩ := h
  exact ⟨turns, htells, hwell.blames e⟩

theorem Tells.concat {turns : List (Turn μ ι ο ρ σ)} (h : r.Tells turns log) (ht : r.Surrounds t) :
    r.Tells (turns ++ [t]) (log ++ t.events r.operator.function) where
  record := by rw [h.record, List.flatMap_append, List.flatMap_singleton]
  surrounds := List.forall_mem_append.2 ⟨h.surrounds, List.forall_mem_singleton.2 ht⟩

theorem Tells.mem_handed_iff {turns : List (Turn μ ι ο ρ σ)} (h : r.Tells turns log)
    {piece : Element ι} :
    piece ∈ Event.handed log ↔ ∃ t ∈ turns, t.occasion = .element piece := by
  have hturn (t : Turn μ ι ο ρ σ) :
      piece ∈ Event.handed (t.events r.operator.function) ↔ t.occasion = .element piece := by
    have hhanded : Event.handed (t.events r.operator.function) = t.occasion.piece?.toList :=
      t.context.handed_callbackEvents _ _ _ _
    rw [hhanded, Option.mem_toList]
    cases t.occasion <;> simp [Occasion.piece?]
  have hflat : Event.handed log =
      turns.flatMap fun t => Event.handed (t.events r.operator.function) := by
    rw [h.record, Event.handed, List.filterMap_flatMap]
    rfl
  simp only [hflat, List.mem_flatMap, hturn]

theorem Tells.exists_of_asked {turns : List (Turn μ ι ο ρ σ)} (h : r.Tells turns log)
    {q : Request ι ο} {reply : q.Reply} (hasked : .asked q reply ∈ log) :
    ∃ t ∈ turns, .asked q reply ∈ t.asked r.operator.function := by
  rw [h.record, List.mem_flatMap] at hasked
  obtain ⟨t, ht, hmem⟩ := hasked
  rw [Turn.events, List.cons_append, List.mem_cons, List.mem_append, List.mem_singleton] at hmem
  rcases hmem with heq | hasked | hended
  · cases heq
  · exact ⟨t, ht, hasked⟩
  · cases hended

theorem GoesOn.turn (h : r.GoesOn log) (ht : r.Surrounds t)
    (herror : t.error? r.operator.function = none) :
    r.GoesOn (log ++ t.events r.operator.function) := by
  obtain ⟨turns, htells, hwell⟩ := h
  exact ⟨turns ++ [t], htells.concat ht, hwell.concat herror⟩

theorem GoesOn.failedTurn (h : r.GoesOn log) (ht : r.Surrounds t)
    (herror : t.error? r.operator.function = some e) :
    r.Halts e (log ++ t.events r.operator.function) := by
  obtain ⟨turns, htells, hwell⟩ := h
  exact ⟨turns ++ [t], htells.concat ht, hwell.blames_concat herror⟩

def Proceeds (r : Runner μ ι ο ρ σ) (s : Staging ι ο) (memory : μ × List (Event ι ο)) : Prop :=
  s.failure = none ∧ r.GoesOn memory.2

theorem GoesOn.endsWith_callback (h : r.GoesOn log) (ht : r.Surrounds t) :
    (t.context.callback t.occasion.stage
        ((r.operator.function.body t.occasion).recorded t.occasion) t.staged).EndsWith
      (t.memory, log) r.Proceeds fun e memory => r.Halts e memory.2 := by
  refine (Turn.endsWith_callback ht.staged log).mono ?_ ?_
  · intro s memory hs
    obtain ⟨herror, hfailure, hlog⟩ := hs
    exact ⟨hfailure, hlog ▸ h.turn ht herror⟩
  · intro e memory he
    obtain ⟨herror, hlog⟩ := he
    exact hlog ▸ h.failedTurn ht herror

theorem endsWith_bundleSession (r : Runner μ ι ο ρ σ) (log₀ : List (Event ι ο))
    (elements : List (Element ι)) (memory : μ) (h : r.GoesOn log) :
    ((r.recorded log₀).bundleSession elements).EndsWith (memory, log) r.Proceeds
      fun e memory => r.Halts e memory.2 := by
  have hstart : r.Surrounds ⟨.startBundle, r.context, .empty, memory⟩ := ⟨rfl, rfl, rfl⟩
  have hpiece (key : Option EncodedKey) (piece : Element ι) (s : Staging ι ο)
      (memory : μ × List (Event ι ο)) (hkey : r.keyOf piece.value = .ok key)
      (h : r.Proceeds s memory) :
      ((r.recorded log₀).processPiece key s piece).EndsWith memory r.Proceeds
        fun e memory => r.Halts e memory.2 := by
    have hsurrounds : r.Surrounds
        ⟨.element piece, { r.context with key, current := some piece.frame }, s, memory.1⟩ :=
      ⟨rfl, hkey, h.1⟩
    exact h.2.endsWith_callback hsurrounds
  refine .bind (h.endsWith_callback hstart) fun s memory h => ?_
  refine .bind ((r.recorded log₀).endsWith_elements hpiece (fun _ _ _ h => h)
    (fun _ _ e h => h.2.halts e) elements h) fun s memory h => ?_
  have hfinish : r.Surrounds ⟨.finishBundle, r.context, s, memory.1⟩ := ⟨rfl, rfl, h.1⟩
  exact h.2.endsWith_callback hfinish

theorem endsWith_passSession (r : Runner μ ι ο ρ σ) (log₀ : List (Event ι ο)) (input : Instant)
    (due : List FiredTimer) (schedule : Schedule) (memory : μ) (h : r.GoesOn log) :
    ((r.recorded log₀).passSession input due schedule).EndsWith (memory, log)
      (fun _ memory => r.GoesOn memory.2) fun e memory => r.Halts e memory.2 := by
  have hstart : r.Surrounds ⟨.startBundle, r.passContext input schedule, .empty, memory⟩ :=
    ⟨rfl, rfl, rfl⟩
  have hfire (schedule : Schedule) (fired : FiredTimer) (s : Staging ι ο)
      (memory : μ × List (Event ι ο)) (h : r.Proceeds s memory) :
      ((r.recorded log₀).fireTimer input schedule s fired).EndsWith memory r.Proceeds
        fun e memory => r.Halts e memory.2 := by
    have hsurrounds : r.Surrounds
        ⟨.timer fired.timer, { r.passContext input schedule with
          key := some fired.key, current := some fired.timer.frame }, s, memory.1⟩ :=
      ⟨rfl, rfl, h.1⟩
    exact h.2.endsWith_callback hsurrounds
  refine .bind (h.endsWith_callback hstart) fun s memory h => ?_
  refine .bind ((r.recorded log₀).endsWith_fireRounds input hfire (fun _ _ _ _ h => h)
    (fun _ _ e h => h.2.halts e) _ due schedule h) fun x memory h => ?_
  have hfinish : r.Surrounds ⟨.finishBundle, r.passContext input x.1, x.2, memory.1⟩ :=
    ⟨rfl, rfl, h.1⟩
  refine .bind (h.2.endsWith_callback hfinish) fun s memory h => ?_
  unfold applyStaged
  cases x.1.applyOps s.timerOps with
  | error e => exact .throw (h.2.halts _)
  | ok schedule' => exact .pure h.2

/-- What a recorded operation tells of the runner before it: all turns went well or, where it fails
by one of them, nothing was handed to the store. -/
def Accounts {α : Type} (r : Runner μ ι ο ρ σ)
    (x : Except ExecutionError α × Runner (μ × List (Event ι ο)) ι ο ρ σ) : Prop :=
  match x with
  | (.ok _, r') => r.GoesOn r'.memory.2
  | (.error e, r') => r.GoesOn r'.memory.2 ∨ r.Halts e r'.memory.2 ∧ r'.store = r.store

theorem Accounts.of_endsAlike {α β : Type}
    {x : Except ExecutionError α × Runner (μ × List (Event ι ο)) ι ο ρ σ}
    {y : Except ExecutionError β × Runner (μ × List (Event ι ο)) ι ο ρ σ} (h : r.Accounts y)
    (hends : EndsAlike x y) : r.Accounts x := by
  obtain ⟨x, r₁⟩ := x
  obtain ⟨y, r₂⟩ := y
  obtain ⟨hresult, hmemory, -, hstore⟩ := hends
  dsimp only at hmemory hstore
  cases x <;> cases y <;> cases hresult
  · show r.GoesOn r₁.memory.2 ∨ r.Halts _ r₁.memory.2 ∧ r₁.store = r.store
    rw [hmemory, hstore]
    exact h
  · show r.GoesOn r₁.memory.2
    rw [hmemory]
    exact h

theorem accounts_of_idle {α : Type}
    {x : Except ExecutionError α × Runner (μ × List (Event ι ο)) ι ο ρ σ}
    (h : x.2.memory.2 = []) : r.Accounts x := by
  obtain ⟨result, r'⟩ := x
  have hgoesOn : r.GoesOn r'.memory.2 := h ▸ r.goesOn_nil
  cases result with
  | error e => exact .inl hgoesOn
  | ok _ => exact hgoesOn

theorem accounts_of_turn (ht : r.Surrounds t) (hasked : t.asked r.operator.function = [])
    {r₁ r₂ : Runner (μ × List (Event ι ο)) ι ο ρ σ}
    (h₁ : r₁.memory.2 = t.events r.operator.function)
    (h₂ : r₂.memory.2 = t.events r.operator.function) (hstore : r₂.store = r.store) :
    r.Accounts (match (t.outcome r.operator.function).1.result with
      | .ok () => (.ok (), r₁)
      | .error cause => (.error (.user t.occasion.stage cause), r₂)) := by
  have hrefusal : t.refusal? r.operator.function = none := by
    rw [Turn.refusal?, hasked, List.findSome?_nil]
  cases hresult : (t.outcome r.operator.function).1.result with
  | ok _ =>
    have hgoesOn := r.goesOn_nil.turn ht (Turn.error?_of_ok hrefusal hresult)
    rw [← h₁] at hgoesOn
    exact hgoesOn
  | error cause =>
    have hhalts := r.goesOn_nil.failedTurn ht (Turn.error?_of_result hrefusal hresult)
    rw [← h₂] at hhalts
    exact .inr ⟨hhalts, hstore⟩

theorem accounts_setup (r : Runner μ ι ο ρ σ) : r.Accounts (r.recorded []).setup := by
  have ht : r.Surrounds ⟨.setup, r.context, .empty, r.memory⟩ := ⟨rfl, rfl, rfl⟩
  unfold setup
  split
  · exact accounts_of_turn ht rfl rfl rfl rfl
  · exact r.goesOn_nil

theorem accounts_teardown (r : Runner μ ι ο ρ σ) : r.Accounts (r.recorded []).teardown := by
  have ht : r.Surrounds ⟨.teardown, r.context, .empty, r.memory⟩ := ⟨rfl, rfl, rfl⟩
  unfold teardown
  dsimp only
  split
  · exact accounts_of_turn ht rfl rfl rfl rfl
  · exact r.goesOn_nil

theorem accounts_setup_iff {α : Type}
    {x : Except ExecutionError α × Runner (μ × List (Event ι ο)) ι ο ρ σ} :
    r.setup.2.Accounts x ↔ r.Accounts x := by
  have htells (turns : List (Turn μ ι ο ρ σ)) (log : List (Event ι ο)) :
      r.setup.2.Tells turns log ↔ r.Tells turns log := by
    constructor
    · intro h
      exact ⟨r.operator_setup ▸ h.record, fun t ht => surrounds_setup_iff.1 (h.surrounds t ht)⟩
    · intro h
      exact ⟨r.operator_setup ▸ h.record, fun t ht => surrounds_setup_iff.2 (h.surrounds t ht)⟩
  unfold Accounts GoesOn Halts
  simp only [htells, operator_setup, store_setup]

theorem accounts_inSession {α : Type} {work : Session (μ × List (Event ι ο)) α}
    (h : work.EndsWith (r.memory, log) (fun _ memory => r.GoesOn memory.2)
      fun e memory => r.Halts e memory.2) : r.Accounts ((r.recorded log).inSession work) := by
  have hmemory : (r.recorded log).memory = (r.memory, log) := rfl
  unfold Session.EndsWith at h
  unfold inSession
  rw [hmemory]
  rcases hrun : work.run (r.memory, log) with ⟨e | a, memory⟩ <;> rw [hrun] at h
  · exact .inr ⟨h, rfl⟩
  · exact h

theorem Accounts.commit {α : Type} {a : α} {r₁ : Runner (μ × List (Event ι ο)) ι ο ρ σ}
    (h : r.Accounts (.ok a, r₁)) (s : Staging ι ο) : r.Accounts (r₁.commit s) := by
  have hmemory := r₁.memory_commit s
  have hgoesOn : r.GoesOn r₁.memory.2 := h
  rw [← hmemory] at hgoesOn
  rcases hc : r₁.commit s with ⟨e | _, r₂⟩ <;> rw [hc] at hgoesOn
  · exact .inl hgoesOn
  · exact hgoesOn

theorem accounts_commitBundle (r : Runner μ ι ο ρ σ) (elements : List (Element ι)) :
    r.Accounts ((r.recorded []).commitBundle elements) := by
  obtain ⟨log, hrecorded, -⟩ := r.setup_recorded
  have hsetup := r.accounts_setup
  unfold commitBundle executeBundle
  rw [hrecorded] at hsetup ⊢
  cases hresult : r.setup.1 with
  | error e =>
    rw [hresult] at hsetup
    exact hsetup
  | ok _ =>
    rw [hresult] at hsetup
    have hlog : r.setup.2.GoesOn log := accounts_setup_iff.2 hsetup
    have hends := r.setup.2.endsWith_bundleSession log elements r.setup.2.memory hlog
    have hwork := accounts_inSession (hends.mono (fun _ _ h => h.2) fun _ _ h => h)
    rw [accounts_setup_iff] at hwork
    dsimp only
    rcases hs : (r.setup.2.recorded log).inSession
      ((r.setup.2.recorded log).bundleSession elements) with ⟨e | s, r₁⟩ <;> rw [hs] at hwork
    · exact hwork
    have hcommit := hwork.commit s
    dsimp only
    rcases hc : r₁.commit s with ⟨e | _, r₂⟩ <;> rw [hc] at hcommit <;> exact hcommit

theorem accounts_firePass (h : r.GoesOn log) (input : Instant) :
    r.Accounts ((r.recorded log).firePass input) := by
  unfold firePass
  split
  · exact h
  next due schedule _ _ =>
    exact accounts_inSession (r.endsWith_passSession log input _ _ r.memory h)

theorem accounts_processWatermark (r : Runner μ ι ο ρ σ) (time : Instant) :
    r.Accounts ((r.recorded []).processWatermark time) := by
  obtain ⟨log, hrecorded, -⟩ := r.setup_recorded
  have hsetup := r.accounts_setup
  unfold processWatermark
  rw [hrecorded] at hsetup ⊢
  cases hresult : r.setup.1 with
  | error e =>
    rw [hresult] at hsetup
    exact hsetup
  | ok _ =>
    rw [hresult] at hsetup
    have hlog : r.setup.2.GoesOn log := accounts_setup_iff.2 hsetup
    have hpass := accounts_setup_iff.1 (accounts_firePass hlog time)
    dsimp only
    split
    · exact .inl hsetup
    rcases hfire : (r.setup.2.recorded log).firePass time with ⟨e | ⟨schedule, s⟩, r₁⟩ <;>
      rw [hfire] at hpass
    · exact hpass
    have hcommit := hpass.commit s
    dsimp only
    rcases hc : r₁.commit s with ⟨e | _, r₂⟩ <;> rw [hc] at hcommit <;> exact hcommit

theorem accounts_call (r : Runner μ ι ο ρ σ) (c : Call ι) :
    (r.received c).Accounts ((r.recorded []).call c) := by
  cases c with
  | setup => exact r.accounts_setup.of_endsAlike (r.recorded []).endsAlike_setup
  | teardown => exact r.accounts_teardown.of_endsAlike (r.recorded []).endsAlike_teardown
  | bundle elements =>
    exact (r.accounts_commitBundle elements).of_endsAlike
      ((r.recorded []).endsAlike_bundle elements)
  | watermark time => exact r.accounts_processWatermark time
  | sideInput index message =>
    rcases (r.recorded []).sideInput_cases index message with ⟨-, hmemory, -⟩ | ⟨-, hends⟩
    · exact accounts_of_idle (congrArg Prod.snd hmemory)
    · rw [received_recorded] at hends
      exact ((r.received _).accounts_commitBundle r.pushback.elements).of_endsAlike hends

/-- A call fails with an error, and but for what it brought and for the function's life the runner
is as before. -/
structure FailsBy (r : Runner μ ι ο ρ σ) (c : Call ι) (e : ExecutionError) : Prop where
  result : (r.call c).1 = .error e
  kept : (r.call c).2 = { r.received c with
    memory := (r.call c).2.memory
    lifecycle := (r.call c).2.lifecycle }

theorem failsBy_of_store {o : Operator μ ι ο} (hr : Sound o r) {c : Call ι}
    {r' : Runner μ ι ο ρ σ} (h : r.call c = (.error e, r')) (hstore : r'.store = r.store) :
    r.FailsBy c e := by
  refine ⟨by rw [h], ?_⟩
  rw [h]
  by_cases hdown : c = .teardown
  · subst hdown
    have hr' : r.teardown.2 = r' := congrArg Prod.snd h
    rw [← hr', teardown_frame]
    rfl
  · have hmoved := call_error hr.buffered hdown h
    rw [← store_received r c] at hstore
    cases r'
    obtain ⟨rfl, rfl, rfl, rfl, rfl, rfl, -, -⟩ := hmoved
    cases hstore
    rfl

/-- The record of a call is made of turns, and one that fails is the last of them. Then the call
fails by it. -/
theorem Sound.exists_turns {o : Operator μ ι ο} (hr : Sound o r) (c : Call ι) :
    ∃ turns, (r.received c).Tells turns (r.events c) ∧
      ∀ before t after e, turns = before ++ t :: after →
        t.error? r.operator.function = some e → after = [] ∧ r.FailsBy c e := by
  have haccounts := r.accounts_call c
  have hwell {turns : List (Turn μ ι ο ρ σ)}
      (h : Turn.AllWell (r.received c).operator.function turns) (before : List (Turn μ ι ο ρ σ))
      (t : Turn μ ι ο ρ σ) (after : List (Turn μ ι ο ρ σ)) (e : ExecutionError)
      (hturns : turns = before ++ t :: after) (he : t.error? r.operator.function = some e) :
      after = [] ∧ r.FailsBy c e := by
    rw [operator_received] at h
    rw [h t (hturns ▸ List.mem_append_cons_self)] at he
    cases he
  rw [call_recorded] at haccounts
  rcases hcall : r.call c with ⟨e | result, r'⟩ <;> rw [hcall] at haccounts
  · rcases haccounts with ⟨turns, htells, h⟩ | ⟨⟨turns, htells, hblames⟩, hkept⟩
    · exact ⟨turns, htells, hwell h⟩
    · refine ⟨turns, htells, fun before t after e' hturns he' => ?_⟩
      rw [operator_received] at hblames
      obtain ⟨hafter, rfl⟩ := hblames before t after hturns e' he'
      exact ⟨hafter, failsBy_of_store hr hcall (hkept.trans (r.store_received c))⟩
  · obtain ⟨turns, htells, h⟩ := haccounts
    exact ⟨turns, htells, hwell h⟩

end StreamOperator.Runner
