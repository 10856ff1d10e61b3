import StreamOperator.Proofs.Function.Record
import StreamOperator.Proofs.Pushback
import StreamOperator.Runner.Recording

/-! What bundles do to a runner. A bundle that fails leaves the runner unmoved. One that is
committed is told by `Committed`: what it staged, what of it took effect, and what its record says
of the pieces and the timers. -/

namespace StreamOperator.Runner

variable {μ ι ο ρ σ : Type}

theorem setup_frame (r : Runner μ ι ο ρ σ) :
    r.setup.2 = { r with memory := r.setup.2.memory, lifecycle := r.setup.2.lifecycle } := by
  unfold setup
  split
  · dsimp only
    split <;> rfl
  · rfl

@[simp] theorem operator_setup (r : Runner μ ι ο ρ σ) : r.setup.2.operator = r.operator := by
  rw [setup_frame]

@[simp] theorem watermark_setup (r : Runner μ ι ο ρ σ) : r.setup.2.watermark = r.watermark := by
  rw [setup_frame]

@[simp] theorem schedule_setup (r : Runner μ ι ο ρ σ) : r.setup.2.schedule = r.schedule := by
  rw [setup_frame]

@[simp] theorem store_setup (r : Runner μ ι ο ρ σ) : r.setup.2.store = r.store := by
  rw [setup_frame]

theorem lifecycle_setup (r : Runner μ ι ο ρ σ) :
    r.setup.2.lifecycle = r.lifecycle ∨
      r.lifecycle = .created ∧ r.setup.2.lifecycle = .active := by
  unfold setup
  split
  next h =>
    dsimp only
    split
    · exact Or.inr ⟨h, rfl⟩
    · exact Or.inl rfl
  · exact Or.inl rfl

theorem setup_eq_of_ne_created {r : Runner μ ι ο ρ σ} (h : r.lifecycle ≠ .created) :
    r.setup = (.ok (), r) := by
  rw [setup, if_neg h]

theorem lifecycle_ne_created_of_setup_ok {r r₁ : Runner μ ι ο ρ σ}
    (h : r.setup = (.ok (), r₁)) : r₁.lifecycle ≠ .created := by
  unfold setup at h
  split at h
  · dsimp only at h
    split at h <;> cases h
    intro hcreated
    cases hcreated
  next hready =>
    cases h
    exact hready

theorem frame_of_setup_ok {r r₁ : Runner μ ι ο ρ σ} (h : r.setup = (.ok (), r₁)) :
    r₁ = { r with memory := r₁.memory, lifecycle := r₁.lifecycle } := by
  have hframe := r.setup_frame
  rw [h] at hframe
  exact hframe

theorem setup_recorded (r : Runner μ ι ο ρ σ) :
    ∃ log, (r.recorded []).setup = (r.setup.1, r.setup.2.recorded log) ∧
      Event.OnlyFires [] [] log := by
  by_cases h : r.lifecycle = .created
  · refine ⟨[.called .setup none, .ended (r.operator.function.setup r.memory).result], ?_,
      ⟨rfl, rfl, rfl⟩⟩
    rcases hs : r.operator.function.setup r.memory with ⟨_ | _, memory⟩ <;>
      simp [setup, recorded, Operator.recorded, UserFunction.recorded, Outcome.recorded, h, hs]
  · exact ⟨[], by simp [setup, recorded, h], .refl []⟩

variable [StateStore σ]

/-- The second store is what a batch left in the first that the first refused. -/
def RefusedBatch (store store' : Option σ) : Prop :=
  ∃ s writes e s', store = some s ∧ StateStore.apply s writes = (.error e, s') ∧ store' = some s'

/-- No part of a call took effect on the first runner. The second one may have been set up, its
function may remember more, and its store is the same but for a batch that it refused. -/
structure Unmoved (r r' : Runner μ ι ο ρ σ) : Prop where
  operator : r'.operator = r.operator
  outputs : r'.outputs = r.outputs
  reader : r'.reader = r.reader
  pushback : r'.pushback = r.pushback
  watermark : r'.watermark = r.watermark
  schedule : r'.schedule = r.schedule
  store : r'.store = r.store ∨ RefusedBatch r.store r'.store
  lifecycle : r'.lifecycle = r.lifecycle ∨ r.lifecycle = .created ∧ r'.lifecycle = .active

theorem unmoved_setup (r : Runner μ ι ο ρ σ) (memory : μ) {store : Option σ}
    (h : store = r.store ∨ RefusedBatch r.store store) :
    Unmoved r { r.setup.2 with memory, store } := by
  have hl := r.lifecycle_setup
  rw [setup_frame]
  exact ⟨rfl, rfl, rfl, rfl, rfl, rfl, h, hl⟩

theorem commit_ok {r r' : Runner μ ι ο ρ σ} {s : Staging ι ο} (h : r.commit s = (.ok (), r')) :
    r.schedule.applyOps s.timerOps = .ok r'.schedule ∧
      applyWrites r.store s.writes = (.ok (), r'.store) ∧
      r' = { r with store := r'.store, schedule := r'.schedule } := by
  unfold commit at h
  cases hops : r.schedule.applyOps s.timerOps with
  | error e =>
    rw [hops] at h
    cases h
  | ok schedule =>
    rcases hw : applyWrites r.store s.writes with ⟨_ | _, store⟩ <;> rw [hops, hw] at h <;> cases h
    exact ⟨rfl, rfl, rfl⟩

theorem commit_error {r r' : Runner μ ι ο ρ σ} {s : Staging ι ο} {e : ExecutionError}
    (h : r.commit s = (.error e, r')) :
    r' = { r with store := r'.store } ∧ (r'.store = r.store ∨ RefusedBatch r.store r'.store) := by
  unfold commit at h
  cases hops : r.schedule.applyOps s.timerOps with
  | error e =>
    rw [hops] at h
    cases h
    exact ⟨rfl, Or.inl rfl⟩
  | ok schedule =>
    rcases hw : applyWrites r.store s.writes with ⟨e | _, store⟩ <;> rw [hops, hw] at h <;> cases h
    refine ⟨rfl, ?_⟩
    unfold applyWrites at hw
    cases hstore : r.store with
    | none =>
      rw [hstore] at hw
      cases hw
    | some s' =>
      rw [hstore] at hw
      dsimp only at hw
      split at hw
      · cases hw
      · rcases ha : StateStore.apply s' s.writes.toList with ⟨result, s''⟩
        rw [ha] at hw
        cases hw
        exact Or.inr ⟨s', _, e, s'', rfl, ha, rfl⟩

theorem memory_commit (r : Runner μ ι ο ρ σ) (s : Staging ι ο) :
    (r.commit s).2.memory = r.memory := by
  rcases hc : r.commit s with ⟨e | _, r'⟩
  · rw [(commit_error hc).1]
  · rw [(commit_ok hc).2.2]

variable [SideInputReader ρ]

def split (r : Runner μ ι ο ρ σ) (e : Element ι) : ReadySplit ι :=
  .ofElement e r.operator.views r.reader

theorem endsWith_elements (r : Runner μ ι ο ρ σ) {inv : Staging ι ο → μ → Prop}
    {failed : ExecutionError → μ → Prop}
    (hpiece : ∀ key piece s memory, r.keyOf piece.value = .ok key → inv s memory →
      (r.processPiece key s piece).EndsWith memory inv failed)
    (hback : ∀ s memory pieces, inv s memory →
      inv { s with pushedBack := s.pushedBack ++ pieces } memory)
    (hfailed : ∀ s memory e, inv s memory → failed e memory) (elements : List (Element ι))
    {s : Staging ι ο} {memory : μ} (h : inv s memory) :
    (elements.foldlM r.processOne s).EndsWith memory inv failed := by
  refine .foldlM (fun _ => inv) ?_ h
  intro _ e _ s memory _ h
  have hkey : (processOne.liftExcept (r.keyOf e.value)).EndsWith memory
      (fun key memory => r.keyOf e.value = .ok key ∧ inv s memory) failed := by
    cases r.keyOf e.value with
    | error e' => exact .throw (hfailed s memory e' h)
    | ok key => exact .pure ⟨rfl, h⟩
  refine .bind hkey fun key memory ⟨hkey, h⟩ => ?_
  refine .bind (.foldlM (fun _ => inv) ?_ h) fun s memory h => .pure (hback s memory _ h)
  intro done piece rest s memory hready h
  have hmem : piece ∈ (r.split e).ready := by
    have hsplit : (r.split e).ready = done ++ piece :: rest := hready
    rw [hsplit]
    exact List.mem_append_right _ List.mem_cons_self
  exact hpiece key piece s memory (by rw [ReadySplit.value_of_mem_ready hmem, hkey]) h

theorem ends_elements (r : Runner μ ι ο ρ σ) {inv : Staging ι ο → μ → Prop} {failed : μ → Prop}
    (hpiece : ∀ key piece s memory, inv s memory →
      (r.processPiece key s piece).Ends memory inv failed)
    (hback : ∀ s memory pieces, inv s memory →
      inv { s with pushedBack := s.pushedBack ++ pieces } memory)
    (hfailed : ∀ s memory, inv s memory → failed memory) (elements : List (Element ι))
    {s : Staging ι ο} {memory : μ} (h : inv s memory) :
    (elements.foldlM r.processOne s).Ends memory inv failed :=
  Session.ends_iff_endsWith.2 (r.endsWith_elements
    (fun key piece s memory _ h => Session.ends_iff_endsWith.1 (hpiece key piece s memory h))
    hback (fun s memory _ => hfailed s memory) elements h)

theorem ends_processOne (r : Runner μ ι ο ρ σ) (log₀ : List (Event ι ο)) (e : Element ι)
    {pieces : List (Element ι)} {s : Staging ι ο} {log : List (Event ι ο)}
    (h : Event.Covers log pieces s) (memory : μ) :
    ((r.recorded log₀).processOne s e).Ends (memory, log)
      (fun s' memory' => s'.pushedBack = s.pushedBack ++ (r.split e).pushedBack ∧
        Event.Covers memory'.2 (pieces ++ (r.split e).ready) s')
      fun memory' => Event.handed memory'.2 <+: pieces ++ (r.split e).ready := by
  have hkey : (processOne.liftExcept ((r.recorded log₀).keyOf e.value)).Ends (memory, log)
      (fun _ memory' => memory' = (memory, log))
      fun memory' => Event.handed memory'.2 <+: pieces ++ (r.split e).ready := by
    cases (r.recorded log₀).keyOf e.value with
    | error e => exact .throw (h.handed ▸ List.prefix_append _ _)
    | ok key => exact .pure rfl
  refine .bind hkey ?_
  rintro key _ rfl
  -- The key is known now, and the ready pieces are processed under it one by one.
  refine .bind (.foldlM (fun done s' memory' => s'.pushedBack = s.pushedBack ∧
    Event.Covers memory'.2 (pieces ++ done) s') ?_ ⟨rfl, by simpa using h⟩) ?_
  · rintro done piece rest s' ⟨memory, log'⟩ hready ⟨hback, hcovers⟩
    refine (Context.ends_callback_covers (.element piece) ?_ _ _ hcovers memory).mono ?_ ?_
    · rintro f ⟨⟩
      exact ⟨piece, rfl, rfl⟩
    · rintro s'' memory' ⟨hback', hcovers'⟩
      rw [List.append_assoc] at hcovers'
      exact ⟨hback'.trans hback, hcovers'⟩
    · intro memory' hhanded
      have hsplit : (r.split e).ready = done ++ piece :: rest := hready
      refine ⟨rest, ?_⟩
      rw [hhanded, hsplit]
      simp [Occasion.piece?]
  · rintro s' ⟨memory, log'⟩ ⟨hback, hcovers⟩
    refine .pure ⟨?_, hcovers.handed, hcovers.timerOps, hcovers.dates⟩
    rw [hback]
    rfl

/-- However a bundle ends, the function was handed the ready pieces of the elements or, where it
fails, the first of them; where it succeeds, the other pieces are staged. -/
theorem ends_bundleSession (r : Runner μ ι ο ρ σ) (log₀ : List (Event ι ο))
    (elements : List (Element ι)) {log : List (Event ι ο)} (h : Event.OnlyFires [] [] log)
    (memory : μ) :
    ((r.recorded log₀).bundleSession elements).Ends (memory, log)
      (fun s memory' => s.pushedBack = elements.flatMap (fun e => (r.split e).pushedBack) ∧
        Event.Covers memory'.2 (elements.flatMap fun e => (r.split e).ready) s)
      fun memory' => Event.handed memory'.2 <+: elements.flatMap fun e => (r.split e).ready := by
  have hstart : Event.Covers log [] (.empty : Staging ι ο) :=
    ⟨h.handed, h.timerOps, fun x hx => by cases hx⟩
  refine .bind ((Context.ends_callback_covers .startBundle (fun f hf => by cases hf)
    _ _ hstart memory).failing fun _ hhanded => ?_) ?_
  · rw [hhanded]
    exact List.nil_prefix
  rintro s ⟨memory, log'⟩ ⟨hback, hcovers⟩
  refine .bind (.foldlM (fun done s memory' =>
    s.pushedBack = done.flatMap (fun e => (r.split e).pushedBack) ∧
      Event.Covers memory'.2 (done.flatMap fun e => (r.split e).ready) s) ?_ ⟨hback, hcovers⟩) ?_
  · rintro done e rest s ⟨memory, log⟩ rfl ⟨hback, hcovers⟩
    refine (r.ends_processOne log₀ e hcovers memory).mono ?_ ?_
    · rintro s' memory' ⟨hback', hcovers'⟩
      rw [List.flatMap_append, List.flatMap_append, List.flatMap_singleton, List.flatMap_singleton]
      exact ⟨by rw [hback', hback], hcovers'⟩
    · intro memory' hhanded
      refine hhanded.trans ⟨rest.flatMap fun e => (r.split e).ready, ?_⟩
      rw [List.flatMap_append, List.flatMap_cons, List.append_assoc]
  · rintro s ⟨memory, log⟩ ⟨hback, hcovers⟩
    refine (Context.ends_callback_covers .finishBundle (fun f hf => by cases hf)
      _ _ hcovers memory).mono ?_ ?_
    · rintro s' memory' ⟨hback', hcovers'⟩
      exact ⟨hback'.trans hback, by simpa [Occasion.piece?] using hcovers'⟩
    · intro memory' hhanded
      rw [hhanded]
      simp [Occasion.piece?]

theorem bundleSession_setup (r : Runner μ ι ο ρ σ) (elements : List (Element ι)) :
    r.setup.2.bundleSession elements = r.bundleSession elements := by
  rw [setup_frame]
  rfl

theorem executeBundle_frame (r : Runner μ ι ο ρ σ) (elements : List (Element ι)) :
    (r.executeBundle elements).2 =
      { r.setup.2 with memory := (r.executeBundle elements).2.memory } := by
  unfold executeBundle
  rcases r.setup with ⟨_ | _, r₁⟩ <;> rfl

theorem executeBundle_ok {r r' : Runner μ ι ο ρ σ} {elements : List (Element ι)}
    {s : Staging ι ο} (h : r.executeBundle elements = (.ok s, r')) :
    (r.bundleSession elements).run r.setup.2.memory = (.ok s, r'.memory) := by
  rw [← bundleSession_setup]
  unfold executeBundle at h
  rcases hs : r.setup with ⟨_ | _, r₁⟩ <;> rw [hs] at h
  · cases h
  · have hresult := congrArg Prod.fst h
    have hmemory := congrArg (fun x => x.2.memory) h
    exact Prod.ext hresult hmemory

theorem commitBundle_error {r r' : Runner μ ι ο ρ σ} {elements : List (Element ι)}
    {e : ExecutionError} (h : r.commitBundle elements = (.error e, r')) : Unmoved r r' := by
  have hframe := r.executeBundle_frame elements
  unfold commitBundle at h
  rcases hx : r.executeBundle elements with ⟨e' | s, r₁⟩ <;> rw [hx] at h hframe <;>
    dsimp only at h hframe
  · cases h
    rw [hframe]
    exact r.unmoved_setup _ (Or.inl r.store_setup)
  · rcases hc : r₁.commit s with ⟨e' | _, r₂⟩ <;> rw [hc] at h <;> cases h
    obtain ⟨hframe', hstore'⟩ := commit_error hc
    have hstore₁ : r₁.store = r.store := by rw [hframe, store_setup]
    rw [hstore₁] at hstore'
    rw [hframe', hframe]
    exact r.unmoved_setup _ hstore'

/-- A bundle over the elements staged `s`, left `events` in its record, and was committed. -/
structure Committed (r : Runner μ ι ο ρ σ) (elements : List (Element ι)) (s : Staging ι ο)
    (events : List (Event ι ο)) (r' : Runner μ ι ο ρ σ) : Prop where
  frame : r' = { r with
    memory := r'.memory, lifecycle := r'.lifecycle, store := r'.store, schedule := r'.schedule }
  schedule : r.schedule.applyOps s.timerOps = .ok r'.schedule
  store : applyWrites r.store s.writes = (.ok (), r'.store)
  pushedBack : s.pushedBack = elements.flatMap fun e => (r.split e).pushedBack
  handed : Event.handed events = elements.flatMap fun e => (r.split e).ready
  timerOps : Event.timerOps events = s.timerOps
  dates : Event.Dates events s.emitted

theorem run_of_commitBundle_ok {r r' : Runner μ ι ο ρ σ} {elements : List (Element ι)}
    {s : Staging ι ο} (h : r.commitBundle elements = (.ok s, r')) :
    (r.bundleSession elements).run r.setup.2.memory = (.ok s, r'.memory) ∧
      r.schedule.applyOps s.timerOps = .ok r'.schedule ∧
      applyWrites r.store s.writes = (.ok (), r'.store) ∧
      r' = { r with
        memory := r'.memory, lifecycle := r'.lifecycle, store := r'.store,
        schedule := r'.schedule } := by
  have hframe := r.executeBundle_frame elements
  rw [setup_frame] at hframe
  unfold commitBundle at h
  rcases hx : r.executeBundle elements with ⟨e | s', r₁⟩ <;> rw [hx] at h hframe <;>
    dsimp only at h hframe
  · cases h
  · rcases hc : r₁.commit s' with ⟨e | _, r₂⟩ <;> rw [hc] at h <;> cases h
    obtain ⟨hops, hwrites, hcommit⟩ := commit_ok hc
    have hmemory : r'.memory = r₁.memory := by rw [hcommit]
    have hschedule : r₁.schedule = r.schedule := by rw [hframe]
    have hstore : r₁.store = r.store := by rw [hframe]
    rw [hschedule] at hops
    rw [hstore] at hwrites
    refine ⟨hmemory ▸ executeBundle_ok hx, hops, hwrites, ?_⟩
    rw [hcommit, hframe]

theorem lifecycle_commitBundle (r : Runner μ ι ο ρ σ) (elements : List (Element ι)) :
    (r.commitBundle elements).2.lifecycle = r.setup.2.lifecycle := by
  have hframe := r.executeBundle_frame elements
  unfold commitBundle
  rcases hx : r.executeBundle elements with ⟨e | s, r₁⟩ <;> rw [hx] at hframe <;>
    dsimp only at hframe ⊢
  · rw [hframe]
  · rcases hc : r₁.commit s with ⟨e | _, r₂⟩ <;> dsimp only
    · rw [(commit_error hc).1, hframe]
    · rw [(commit_ok hc).2.2, hframe]

theorem memory_commitBundle (r : Runner μ ι ο ρ σ) (elements : List (Element ι)) :
    (r.commitBundle elements).2.memory =
      match r.setup.1 with
      | .ok _ => ((r.bundleSession elements).run r.setup.2.memory).2
      | .error _ => r.setup.2.memory := by
  rw [← bundleSession_setup]
  unfold commitBundle executeBundle
  rcases r.setup with ⟨_ | _, r₀⟩ <;> dsimp only
  rcases hx : r₀.inSession (r₀.bundleSession elements) with ⟨e | s, r₁⟩ <;>
    have hmemory : r₁.memory = _ := congrArg (fun x => x.2.memory) hx.symm <;> dsimp only
  · exact hmemory
  have hcommit := r₁.memory_commit s
  rcases hc : r₁.commit s with ⟨e | _, r₂⟩ <;> rw [hc] at hcommit <;> exact hcommit.trans hmemory

theorem handed_commitBundle (r : Runner μ ι ο ρ σ) (elements : List (Element ι)) :
    Event.handed ((r.recorded []).commitBundle elements).2.memory.2 <+:
      elements.flatMap fun e => (r.split e).ready := by
  obtain ⟨log, hsetup, hlog⟩ := r.setup_recorded
  rw [memory_commitBundle, hsetup]
  cases r.setup.1 with
  | error e =>
    have hnone : Event.handed log = [] := hlog.handed
    show Event.handed log <+: _
    rw [hnone]
    exact List.nil_prefix
  | ok _ =>
    refine ((r.ends_bundleSession [] elements hlog r.setup.2.memory).mono ?_ fun _ h => h).always
    rintro s memory ⟨-, hcovers⟩
    exact hcovers.handed ▸ List.prefix_refl _

theorem commitBundle_ok {r r' : Runner μ ι ο ρ σ} {elements : List (Element ι)}
    {s : Staging ι ο} (h : r.commitBundle elements = (.ok s, r')) :
    ∃ events, (∀ log, (r.recorded log).commitBundle elements =
        (.ok s, r'.recorded (log ++ events))) ∧
      Committed r elements s events r' := by
  obtain ⟨events, hrecorded⟩ := r.records_commitBundle elements
  rw [h] at hrecorded
  obtain ⟨log, hsetup, hlog⟩ := r.setup_recorded
  obtain ⟨-, hschedule, hstore, hframe⟩ := run_of_commitBundle_ok h
  have hrun := (run_of_commitBundle_ok (hrecorded [])).1
  rw [hsetup] at hrun
  obtain ⟨hback, hcovers⟩ := (r.ends_bundleSession [] elements hlog r.setup.2.memory).gives _ _ hrun
  exact ⟨events, hrecorded, hframe, hschedule, hstore, hback, hcovers.handed, hcovers.timerOps,
    hcovers.dates⟩

end StreamOperator.Runner
