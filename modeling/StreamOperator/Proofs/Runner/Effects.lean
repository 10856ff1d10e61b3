import StreamOperator.Proofs.Function.Requests
import StreamOperator.Proofs.Runner.Sound

/-! What a call does outside the runner, told from its record. The outputs of a call that succeeds are
all that was emitted in it, by the tags of the channels. However a call ends, the store is handed
nothing or one batch, which has all the writes of the record and no others. -/

namespace StreamOperator

namespace Outputs

variable {β : Type}

structure SameData (o o' : Outputs β) : Prop where
  main : o.mainData = o'.mainData
  side : o.side = o'.side

theorem sameData_refl (o : Outputs β) : o.SameData o := ⟨rfl, rfl⟩

theorem SameData.trans {o o' o'' : Outputs β} (h : o.SameData o') (h' : o'.SameData o'') :
    o.SameData o'' := ⟨h.main.trans h'.main, h.side.trans h'.side⟩

theorem sameData_pushWatermark? (o : Outputs β) (t? : Option Instant) :
    (o.pushWatermark? t?).SameData o := by
  cases t? with
  | none => exact o.sameData_refl
  | some t => exact ⟨o.mainData_pushWatermark t, rfl⟩

theorem ofEmissions_nil (t : OutputTable) : (ofEmissions t [] : Outputs β) = .empty t := by
  have hside : t.side.mapIdx (fun _ tag => (tag, ([] : List (Element β)))) = t.side.map (·, []) :=
    List.ext_getElem? (by simp)
  simp [ofEmissions, empty, onChannel, hside]

end Outputs

namespace Runner

variable {μ ι ο ρ σ : Type}

/-- A record describes what a bundle of the runner has staged. -/
abbrev Describes (r : Runner μ ι ο ρ σ) (log : List (Event ι ο)) (s : Staging ι ο) : Prop :=
  Event.Describes r.outputs r.operator.config.operatorId log s

def emitted (r : Runner μ ι ο ρ σ) (log : List (Event ι ο)) : Outputs ο :=
  .ofEmissions r.outputs (r.outputs.resolve (Event.emissions r.outputs.main log))

def written (r : Runner μ ι ο ρ σ) (log : List (Event ι ο)) :
    Std.ExtTreeMap Address (Option Bytes) :=
  Staging.stageWrites ∅ (Event.cellWrites r.operator.config.operatorId log)

/-- What an operation on a recorded runner gives, and what it hands to the store, is what its record
tells. -/
structure Conveys [StateStore σ] (r : Runner μ ι ο ρ σ)
    (x : Except ExecutionError (Outputs ο) × Runner (μ × List (Event ι ο)) ι ο ρ σ) : Prop where
  store : x.2.store = r.store ∨ x.2.store = (applyWrites r.store (r.written x.2.memory.2)).2
  outputs : ∀ o, x.1 = .ok o → o.SameData (r.emitted x.2.memory.2)

theorem describes_nil (r : Runner μ ι ο ρ σ) : r.Describes [] .empty := ⟨rfl, rfl⟩

theorem describes_setup (r : Runner μ ι ο ρ σ) :
    r.Describes (r.recorded []).setup.2.memory.2 .empty := by
  unfold setup
  split
  · dsimp only
    split <;> exact ⟨rfl, rfl⟩
  · exact r.describes_nil

theorem describes_teardown (r : Runner μ ι ο ρ σ) :
    r.Describes (r.recorded []).teardown.2.memory.2 .empty := by
  unfold teardown
  dsimp only
  split
  · split <;> exact ⟨rfl, rfl⟩
  · exact r.describes_nil

theorem describes_setup_iff {r : Runner μ ι ο ρ σ} {log : List (Event ι ο)} {s : Staging ι ο} :
    r.setup.2.Describes log s ↔ r.Describes log s := by
  unfold Describes
  rw [setup_frame]

section Commit

variable [StateStore σ] {r : Runner μ ι ο ρ σ}

theorem conveys_of_describes_empty
    {x : Except ExecutionError (Outputs ο) × Runner (μ × List (Event ι ο)) ι ο ρ σ}
    (hstore : x.2.store = r.store) (hlog : r.Describes x.2.memory.2 .empty)
    (houtputs : ∀ o, x.1 = .ok o → o.SameData (.empty r.outputs)) : r.Conveys x where
  store := .inl hstore
  outputs o ho := by
    rw [emitted, ← hlog.outputs, Staging.outputs_empty, Outputs.ofEmissions_nil]
    exact houtputs o ho

theorem conveys_of_error {e : ExecutionError} {r' : Runner (μ × List (Event ι ο)) ι ο ρ σ}
    (hstore : r'.store = r.store) : r.Conveys (.error e, r') :=
  ⟨.inl hstore, nofun⟩

theorem conveys_bracket {α : Type}
    {x : Except ExecutionError α × Runner (μ × List (Event ι ο)) ι ο ρ σ}
    (hstore : x.2.store = r.store) (houtputs : x.2.outputs = r.outputs)
    (hlog : r.Describes x.2.memory.2 .empty) :
    r.Conveys ((x.1.map fun _ => x.2.emptyResult).map CallResult.outputs, x.2) := by
  refine conveys_of_describes_empty hstore hlog fun o ho => ?_
  rcases x with ⟨e | _, r'⟩ <;> cases ho
  have hempty : r'.emptyResult.outputs = .empty r.outputs := congrArg Outputs.empty houtputs
  rw [hempty]
  exact Outputs.sameData_refl _

theorem conveys_commit {r₁ : Runner (μ × List (Event ι ο)) ι ο ρ σ} {s : Staging ι ο}
    (hstore : r₁.store = r.store) (h : r.Describes r₁.memory.2 s) :
    r.Conveys ((r₁.commit s).1.map fun _ => .ofEmissions r.outputs s.outputs, (r₁.commit s).2) := by
  have hmemory := r₁.memory_commit s
  constructor
  · rw [hmemory, written, ← h.writes, ← hstore]
    unfold commit
    cases r₁.schedule.applyOps s.timerOps with
    | error e => exact .inl rfl
    | ok schedule =>
      rcases applyWrites r₁.store s.writes with ⟨_ | _, store⟩ <;> exact .inr rfl
  · intro o ho
    rw [hmemory, emitted, ← h.outputs]
    cases hresult : (r₁.commit s).1 with
    | error e =>
      rw [hresult] at ho
      cases ho
    | ok _ =>
      rw [hresult] at ho
      cases ho
      exact Outputs.sameData_refl _

end Commit

variable [SideInputReader ρ] [StateStore σ]

theorem ends_callback_describes {r : Runner μ ι ο ρ σ} {t : Turn μ ι ο ρ σ}
    {log : List (Event ι ο)} (houtputs : t.context.outputs = r.outputs)
    (hoperator : t.context.operator = r.operator.config.operatorId)
    (hframe : t.context.current = t.occasion.frame?) (h : r.Describes log t.staged) :
    (t.context.callback t.occasion.stage
        ((r.operator.function.body t.occasion).recorded t.occasion) t.staged).Ends (t.memory, log)
      (fun s memory => r.Describes memory.2 s) fun _ => True := by
  unfold Describes at h ⊢
  rw [← houtputs, ← hoperator] at h ⊢
  refine (t.context.ends_callback_recorded _ _ _ t.staged t.memory log).mono ?_ fun _ _ => trivial
  intro s memory hs
  rw [hs.1, hs.2]
  exact Turn.describes (f := r.operator.function) hframe h

theorem ends_bundleSession_describes (r : Runner μ ι ο ρ σ) (log₀ : List (Event ι ο))
    (elements : List (Element ι)) {log : List (Event ι ο)} (h : r.Describes log .empty)
    (memory : μ) :
    ((r.recorded log₀).bundleSession elements).Ends (memory, log)
      (fun s memory => r.Describes memory.2 s) fun _ => True := by
  have hstart := ends_callback_describes (r := r) (t := ⟨.startBundle, r.context, .empty, memory⟩)
    rfl rfl rfl h
  have hpiece (key : Option EncodedKey) (piece : Element ι) (s : Staging ι ο)
      (memory : μ × List (Event ι ο)) (h : r.Describes memory.2 s) :
      ((r.recorded log₀).processPiece key s piece).Ends memory
        (fun s memory => r.Describes memory.2 s) fun _ => True :=
    ends_callback_describes (r := r) (t := ⟨.element piece,
      { r.context with key, current := some piece.frame }, s, memory.1⟩) rfl rfl rfl h
  refine .bind hstart fun s memory h => ?_
  refine .bind ((r.recorded log₀).ends_elements hpiece
    (fun s memory pieces h => ⟨h.outputs, h.writes⟩) (fun _ _ _ => trivial) elements h)
    fun s memory h => ?_
  exact ends_callback_describes (r := r) (t := ⟨.finishBundle, r.context, s, memory.1⟩)
    rfl rfl rfl h

theorem ends_passSession_describes (r : Runner μ ι ο ρ σ) (log₀ : List (Event ι ο))
    (input : Instant) (due : List FiredTimer) (schedule : Schedule) {log : List (Event ι ο)}
    (h : r.Describes log .empty) (memory : μ) :
    ((r.recorded log₀).passSession input due schedule).Ends (memory, log)
      (fun x memory => r.Describes memory.2 x.2) fun _ => True := by
  have hstart := ends_callback_describes (r := r)
    (t := ⟨.startBundle, r.passContext input schedule, .empty, memory⟩) rfl rfl rfl h
  have hfire (schedule : Schedule) (fired : FiredTimer) (s : Staging ι ο)
      (memory : μ × List (Event ι ο)) (h : r.Describes memory.2 s) :
      ((r.recorded log₀).fireTimer input schedule s fired).EndsWith memory
        (fun s memory => r.Describes memory.2 s) fun _ _ => True :=
    Session.ends_iff_endsWith.1 (ends_callback_describes (r := r) (t := ⟨.timer fired.timer,
      { r.passContext input schedule with
        key := some fired.key, current := some fired.timer.frame }, s, memory.1⟩) rfl rfl rfl h)
  refine .bind hstart fun s memory h => ?_
  refine .bind (Session.ends_iff_endsWith.2 ((r.recorded log₀).endsWith_fireRounds input hfire
    (fun s ops count memory h => ⟨h.outputs, h.writes⟩) (fun _ _ _ _ => trivial) _ due schedule h))
    fun x memory h => ?_
  refine .bind (ends_callback_describes (r := r)
    (t := ⟨.finishBundle, r.passContext input x.1, x.2, memory.1⟩) rfl rfl rfl h) ?_
  intro s memory h
  refine (ends_applyStaged _ s memory).mono ?_ fun _ _ => trivial
  intro x memory' hx
  rw [hx.1, hx.2.2]
  exact ⟨h.outputs, h.writes⟩

theorem conveys_commitBundle (r : Runner μ ι ο ρ σ) (elements : List (Element ι)) :
    r.Conveys
      (((r.recorded []).commitBundle elements).1.map fun s => .ofEmissions r.outputs s.outputs,
        ((r.recorded []).commitBundle elements).2) := by
  obtain ⟨log, hrecorded, -⟩ := r.setup_recorded
  have hlog := r.describes_setup
  rw [hrecorded] at hlog
  change r.Describes log .empty at hlog
  unfold commitBundle executeBundle
  rw [hrecorded]
  cases r.setup.1 with
  | error e => exact conveys_of_error r.store_setup
  | ok _ =>
    have hends := r.setup.2.ends_bundleSession_describes log elements (describes_setup_iff.2 hlog)
      r.setup.2.memory
    dsimp only
    rcases hs : (r.setup.2.recorded log).inSession
      ((r.setup.2.recorded log).bundleSession elements) with ⟨e | s, r₁⟩
    · have hstore : r₁.store = r.setup.2.store := congrArg (fun x => x.2.store) hs.symm
      exact conveys_of_error (hstore.trans r.store_setup)
    · have hstore : r₁.store = r.setup.2.store := congrArg (fun x => x.2.store) hs.symm
      have hresult := congrArg Prod.fst hs
      have hmemory := congrArg (fun x => x.2.memory) hs
      have hdescribes := describes_setup_iff.1 (hends.gives s r₁.memory (Prod.ext hresult hmemory))
      have hcommit := conveys_commit (hstore.trans r.store_setup) hdescribes
      dsimp only
      rcases hc : r₁.commit s with ⟨e | _, r₂⟩ <;> rw [hc] at hcommit <;> exact hcommit

theorem describes_firePass {r : Runner μ ι ο ρ σ} {r₁ : Runner (μ × List (Event ι ο)) ι ο ρ σ}
    {log : List (Event ι ο)} (h : r.Describes log .empty) {input : Instant} {schedule : Schedule}
    {s : Staging ι ο} (hpass : (r.recorded log).firePass input = (.ok (schedule, s), r₁)) :
    r.Describes r₁.memory.2 s := by
  unfold firePass at hpass
  split at hpass
  · cases hpass
    exact h
  · have hresult := congrArg Prod.fst hpass
    have hmemory := congrArg (fun x => x.2.memory) hpass
    exact (r.ends_passSession_describes log input _ _ h r.memory).gives _ _
      (Prod.ext hresult hmemory)

theorem conveys_processWatermark (r : Runner μ ι ο ρ σ) (time : Instant) :
    r.Conveys (((r.recorded []).processWatermark time).1.map CallResult.outputs,
      ((r.recorded []).processWatermark time).2) := by
  obtain ⟨log, hrecorded, -⟩ := r.setup_recorded
  have hlog := r.describes_setup
  rw [hrecorded] at hlog
  change r.Describes log .empty at hlog
  unfold processWatermark
  rw [hrecorded]
  cases r.setup.1 with
  | error e => exact conveys_of_error r.store_setup
  | ok _ =>
    dsimp only
    split
    · exact conveys_of_error r.store_setup
    next outputWatermark watermark _ =>
      have hframe := (r.setup.2.recorded log).firePass_frame time
      rcases hpass : (r.setup.2.recorded log).firePass time with ⟨e | ⟨schedule, s⟩, r₁⟩ <;>
        rw [hpass] at hframe <;> dsimp only at hframe ⊢
      · rw [hframe]
        exact conveys_of_error r.store_setup
      have hstore : r₁.store = r.store := by
        rw [hframe]
        exact r.store_setup
      have houtputs : r₁.outputs = r.outputs := by
        rw [hframe]
        exact congrArg Runner.outputs r.setup_frame
      have hcommit := conveys_commit hstore
        (describes_setup_iff.1 (describes_firePass (describes_setup_iff.2 hlog) hpass))
      rcases hc : r₁.commit s with ⟨e | _, r₂⟩ <;> rw [hc] at hcommit
      · exact hcommit
      · have houtputs₂ : r₂.outputs = r.outputs := by rw [(commit_ok hc).2.2, houtputs]
        refine ⟨hcommit.store, fun o ho => ?_⟩
        have hpushed : o = (Outputs.ofEmissions r.outputs s.outputs).pushWatermark?
            outputWatermark := by
          cases ho
          dsimp only
          rw [houtputs₂]
          cases outputWatermark <;> rfl
        rw [hpushed]
        exact (Outputs.sameData_pushWatermark? _ _).trans (hcommit.outputs _ rfl)

theorem conveys_replay (r : Runner μ ι ο ρ σ) :
    r.Conveys ((r.recorded []).replay.1.map CallResult.outputs, (r.recorded []).replay.2) := by
  have hbundle := r.conveys_commitBundle (r.recorded []).pushback.elements
  unfold replay
  split
  · refine conveys_of_describes_empty rfl r.describes_nil fun o ho => ?_
    cases ho
    exact Outputs.sameData_refl _
  · rcases hc : (r.recorded []).commitBundle (r.recorded []).pushback.elements with
      ⟨e | s, r₁⟩ <;> rw [hc] at hbundle
    · exact ⟨hbundle.store, nofun⟩
    · refine ⟨hbundle.store, fun o ho => ?_⟩
      have hframe := (run_of_commitBundle_ok hc).2.2.2
      have houtputs : r₁.outputs = r.outputs := by rw [hframe]; rfl
      cases ho
      rw [houtputs]
      exact hbundle.outputs _ rfl

theorem conveys_processSideInput (r : Runner μ ι ο ρ σ) (index : Nat)
    (message : StreamMessage SideValue) :
    r.Conveys (((r.recorded []).processSideInput index message).1.map CallResult.outputs,
      ((r.recorded []).processSideInput index message).2) := by
  unfold processSideInput
  split
  · exact conveys_of_error rfl
  next view _ =>
    cases message with
    | watermark t =>
      refine conveys_of_describes_empty rfl r.describes_nil fun o ho => ?_
      cases ho
      exact Outputs.sameData_refl _
    | data value =>
      have hreplay : r.Conveys ((((r.recorded []).materialize view value).replay).1.map
          CallResult.outputs, (((r.recorded []).materialize view value).replay).2) :=
        ⟨(r.materialize view value).conveys_replay.store,
          (r.materialize view value).conveys_replay.outputs⟩
      dsimp only
      rcases hr : ((r.recorded []).materialize view value).replay with ⟨e | result, r₁⟩ <;>
        rw [hr] at hreplay
      · exact ⟨hreplay.store, nofun⟩
      · refine ⟨hreplay.store, fun o ho => ?_⟩
        have hpushed : o = result.outputs.pushWatermark?
            (r₁.watermark.reevaluate r₁.pushback.minTimestamp).1 := by
          cases ho
          unfold releaseWatermark
          dsimp only
          cases (r₁.watermark.reevaluate r₁.pushback.minTimestamp).1 <;> rfl
        rw [hpushed]
        exact (Outputs.sameData_pushWatermark? _ _).trans (hreplay.outputs _ rfl)

theorem conveys_processBundle (r : Runner μ ι ο ρ σ) (elements : List (Element ι)) :
    r.Conveys (((r.recorded []).processBundle elements).1.map CallResult.outputs,
      ((r.recorded []).processBundle elements).2) := by
  have hbundle := r.conveys_commitBundle elements
  unfold processBundle
  rcases hc : (r.recorded []).commitBundle elements with ⟨e | s, r₁⟩ <;> rw [hc] at hbundle
  · exact hbundle
  · refine ⟨hbundle.store, fun o ho => ?_⟩
    have houtputs : r₁.outputs = r.outputs := by
      rw [(run_of_commitBundle_ok hc).2.2.2]
      rfl
    cases ho
    dsimp only
    rw [houtputs]
    exact hbundle.outputs _ rfl

theorem conveys_call (r : Runner μ ι ο ρ σ) (c : Call ι) :
    r.Conveys (((r.recorded []).call c).1.map CallResult.outputs, ((r.recorded []).call c).2) := by
  cases c with
  | setup =>
    exact conveys_bracket (r.recorded []).store_setup
      (congrArg Runner.outputs (r.recorded []).setup_frame) r.describes_setup
  | teardown =>
    exact conveys_bracket (congrArg Runner.store (r.recorded []).teardown_frame)
      (congrArg Runner.outputs (r.recorded []).teardown_frame) r.describes_teardown
  | bundle elements => exact r.conveys_processBundle elements
  | sideInput index message => exact r.conveys_processSideInput index message
  | watermark time => exact r.conveys_processWatermark time

theorem outputs_of_call_ok {r r' : Runner μ ι ο ρ σ} {c : Call ι} {result : CallResult ι ο}
    (h : r.call c = (.ok result, r')) : result.outputs.SameData (r.emitted (r.events c)) := by
  have hconveys := r.conveys_call c
  rw [call_recorded, h] at hconveys
  exact hconveys.outputs _ rfl

theorem store_of_call (r : Runner μ ι ο ρ σ) (c : Call ι) :
    (r.call c).2.store = r.store ∨
      (r.call c).2.store = (applyWrites r.store (r.written (r.events c))).2 := by
  have hconveys := r.conveys_call c
  rw [call_recorded] at hconveys
  exact hconveys.store

/-- A runner of an operator as calls leave it, where its store may be shared: between two calls
others may have changed what is in it. -/
inductive Reached (o : Operator μ ι ο) : Runner μ ι ο ρ σ → Prop
  | fresh {reader store memory r} (h : o.runner reader store memory = .ok r) : Reached o r
  | call {r} (h : Reached o r) (c : Call ι) : Reached o (r.call c).2
  | shared {r} (h : Reached o r) (store : Option σ) : Reached o { r with store }

namespace Reached

variable {o : Operator μ ι ο} {r : Runner μ ι ο ρ σ}

theorem sound (h : Reached o r) : Sound o r := by
  induction h with
  | fresh h => exact sound_fresh h
  | call _ c ih => exact ih.call c
  | shared _ _ ih => exact ih.congr rfl rfl rfl ih.scheduled

end Reached

end Runner

end StreamOperator
