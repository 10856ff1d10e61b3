import StreamOperator.Proofs.Bundle.Overlay
import StreamOperator.Proofs.Runner.Bundle

/-! Boundaries of bundles, over cells in memory and for a function that does nothing at the start
and the end of a bundle. Such a function cannot tell whether elements come in one bundle or in two:
the runner goes from the same state to the same state, and each channel carries the same. -/

namespace StreamOperator

variable {μ ι ο α ρ σ : Type}

/-- A staging that nothing keeps from being committed. -/
structure Staging.Committable (s : Staging ι ο) : Prop where
  failure : s.failure = none
  served : ∀ op ∈ s.timerOps, op.Served

theorem Staging.committable_empty : (empty : Staging ι ο).Committable :=
  ⟨rfl, fun _ h => by cases h⟩

namespace Context

variable [SideInputReader ρ] [StateStore σ]

theorem served_answer {c : Context ρ σ} {s : Staging ι ο} {q : Request ι ο} {op : TimerOp}
    (h : q.timerOp? c.key (c.answer s q).1 = some op) : op.Served := by
  cases q with
  | setTimer timer =>
    by_cases hdomain : timer.domain = .event
    · have hanswer : c.answer s (.setTimer timer) =
          c.withKey .setTimer s fun key => (.ok (), s.addTimerOp (.set key timer)) :=
        if_neg (not_not.2 hdomain)
      rw [hanswer, withKey] at h
      cases hkey : c.key with
      | none =>
        rw [hkey] at h
        cases h
      | some key =>
        rw [hkey] at h
        cases h
        exact hdomain
    · have hanswer : c.answer s (.setTimer timer) =
          refuse s (.unsupported (.timerDomain timer.domain)) := if_pos hdomain
      rw [hanswer] at h
      cases h
  | deleteTimer slot =>
    cases hreply : (c.answer s (.deleteTimer slot)).1 with
    | error e =>
      rw [hreply] at h
      cases h
    | ok _ =>
      rw [hreply] at h
      obtain ⟨key, -, rfl⟩ := Option.map_eq_some_iff.1 h
      trivial
  | _ => cases h

theorem served_run (c : Context ρ σ) {s : Staging ι ο} (h : ∀ op ∈ s.timerOps, op.Served)
    (x : Interaction ι ο α) : ∀ op ∈ (c.run s x).2.timerOps, op.Served := by
  induction x generalizing s with
  | done a => exact h
  | ask q next ih =>
    have hanswer : ∀ op ∈ (c.answer s q).2.timerOps, op.Served := by
      rw [timerOps_answer]
      intro op hop
      cases List.mem_append.1 hop with
      | inl hop => exact h op hop
      | inr hop => exact served_answer (Option.mem_toList.1 hop)
    exact ih _ hanswer

theorem ends_callback_committable (c : Context ρ σ) (stage : Stage) (body : Callback μ ι ο)
    {s : Staging ι ο} (h : s.Committable) (memory : μ) :
    (c.callback stage body s).Ends memory (fun s' _ => s'.Committable) fun _ => True := by
  refine (c.ends_callback stage body s memory).mono ?_ fun _ h => h
  rintro _ _ ⟨rfl, hfailure⟩
  exact ⟨hfailure, c.served_run h.served _⟩

theorem callback_success {c : Context ρ σ} {stage : Stage} {s : Staging ι ο}
    (h : s.failure = none) :
    c.callback stage (fun m : μ => .done (.success m)) s = pure s := by
  funext memory
  show (settle stage (.ok ()) s, memory) = (.ok s, memory)
  rw [settle, h]

end Context

namespace Outputs

variable {β : Type}

def append (o o' : Outputs β) : Outputs β :=
  ⟨o.main ++ o'.main, List.zipWith (fun x y => (x.1, x.2 ++ y.2)) o.side o'.side⟩

theorem ofEmissions_append (t : OutputTable) (xs ys : List (Channel × Element β)) :
    ofEmissions t (xs ++ ys) = (ofEmissions t xs).append (ofEmissions t ys) := by
  have hmain : (ofEmissions t (xs ++ ys)).main =
      (ofEmissions t xs).main ++ (ofEmissions t ys).main := by
    simp only [ofEmissions, onChannel_append, List.map_append]
  have hside : (ofEmissions t (xs ++ ys)).side =
      List.zipWith (fun x y => (x.1, x.2 ++ y.2)) (ofEmissions t xs).side
        (ofEmissions t ys).side := by
    apply List.ext_getElem?
    intro index
    simp only [ofEmissions, List.getElem?_mapIdx, List.getElem?_zipWith, onChannel_append]
    cases t.side[index]? <;> rfl
  exact congrArg₂ Outputs.mk hmain hside

theorem map_fst_side_ofEmissions (t : OutputTable) (xs : List (Channel × Element β)) :
    (ofEmissions t xs).side.map Prod.fst = t.side := by
  apply List.ext_getElem?
  intro index
  simp only [ofEmissions, List.getElem?_map, List.getElem?_mapIdx]
  cases t.side[index]? <;> rfl

end Outputs

def CallResult.append (first second : CallResult ι ο) : CallResult ι ο where
  outputs := first.outputs.append second.outputs
  residuals := first.residuals ++ second.residuals
  pushedBack := first.pushedBack + second.pushedBack
  hold := second.hold
  outputWatermark := second.outputWatermark
  firedTimers := first.firedTimers + second.firedTimers

/-- The function does nothing at the start and the end of a bundle. -/
structure UserFunction.Unbracketed (f : UserFunction μ ι ο) : Prop where
  startBundle : f.startBundle = fun m => .done (.success m)
  finishBundle : f.finishBundle = fun m => .done (.success m)

namespace Runner

def resultOf (r : Runner μ ι ο ρ Cells) (s : Staging ι ο) : CallResult ι ο where
  outputs := .ofEmissions r.outputs s.outputs
  residuals := s.residuals
  pushedBack := s.pushedBack.length
  hold := (r.pushback.extend s.pushedBack).minTimestamp
  outputWatermark := none
  firedTimers := s.firedTimers

def afterBundle (r : Runner μ ι ο ρ Cells) (s : Staging ι ο) (schedule : Schedule) (memory : μ) :
    Runner μ ι ο ρ Cells :=
  { r with
    memory
    schedule
    store := r.store.map (·.writeAll s.writes.toList)
    pushback := r.pushback.extend s.pushedBack }

theorem applyWrites_cells (store : Option Cells)
    (writes : Std.ExtTreeMap Address (Option Bytes)) :
    applyWrites store writes = (.ok (), store.map (·.writeAll writes.toList)) := by
  cases store with
  | none => rfl
  | some cells =>
    unfold applyWrites
    dsimp only
    split
    next h =>
      have hnone : writes.toList = [] := by
        rw [← List.isEmpty_iff, Std.ExtTreeMap.isEmpty_toList]
        exact h
      rw [hnone]
      rfl
    · rfl

theorem resultOf_append (r : Runner μ ι ο ρ Cells) (p s : Staging ι ο) (schedule : Schedule)
    (memory : μ) :
    r.resultOf (p ++ s) = (r.resultOf p).append ((r.afterBundle p schedule memory).resultOf s) := by
  unfold resultOf CallResult.append
  dsimp only
  rw [Staging.outputs_append, Outputs.ofEmissions_append, Staging.residuals_append,
    Staging.pushedBack_append, List.length_append, PushbackBuffer.extend_append,
    Staging.firedTimers_append]
  rfl

theorem afterBundle_append (r : Runner μ ι ο ρ Cells) (p s : Staging ι ο)
    (schedule schedule' : Schedule) (memory memory' : μ) :
    r.afterBundle (p ++ s) schedule' memory' =
      (r.afterBundle p schedule memory).afterBundle s schedule' memory' := by
  have hstore : r.store.map (·.writeAll (p ++ s).writes.toList) =
      (r.store.map (·.writeAll p.writes.toList)).map (·.writeAll s.writes.toList) := by
    rw [Option.map_map]
    apply Option.map_congr
    intro cells _
    exact cells.writeAll_union p.writes s.writes
  unfold afterBundle
  rw [hstore, Staging.pushedBack_append, PushbackBuffer.extend_append]

variable [SideInputReader ρ]

section Elements

variable [StateStore σ]

theorem ends_elements_committable (r : Runner μ ι ο ρ σ) (elements : List (Element ι))
    {s : Staging ι ο} (h : s.Committable) (memory : μ) :
    (elements.foldlM r.processOne s).Ends memory (fun s' _ => s'.Committable) fun _ => True := by
  refine r.ends_elements ?_ ?_ (fun _ _ _ => trivial) elements h
  · intro _ piece s memory h
    exact Context.ends_callback_committable _ _ _ h memory
  · intro s _ _ h
    exact ⟨h.failure, h.served⟩

theorem processOne_append {r : Runner μ ι ο ρ σ} {p : Staging ι ο} (hfailure : p.failure = none)
    {schedule : Schedule} {store : Option σ} (hp : p.Applied r.schedule r.store schedule store)
    (s : Staging ι ο) (e : Element ι) :
    r.processOne (p ++ s) e = (p ++ ·) <$> { r with schedule, store }.processOne s e := by
  have hpieces (key : Option EncodedKey) (ready : List (Element ι)) :
      ready.foldlM (r.processPiece key) (p ++ s) =
        (p ++ ·) <$> ready.foldlM ({ r with schedule, store }.processPiece key) s :=
    Session.foldlM_map
      (fun s piece => Context.callback_append hfailure (hp.appliedFor key) _ _ s) ready s
  unfold processOne
  rw [map_bind]
  apply bind_congr
  intro key
  dsimp only
  rw [hpieces, bind_map_left, map_bind]
  apply bind_congr
  intro s
  rw [map_pure, Staging.pushedBack_append, List.append_assoc]
  rfl

theorem elements_append {r : Runner μ ι ο ρ σ} {p : Staging ι ο} (hfailure : p.failure = none)
    {schedule : Schedule} {store : Option σ} (hp : p.Applied r.schedule r.store schedule store)
    (elements : List (Element ι)) :
    elements.foldlM r.processOne p =
      (p ++ ·) <$> elements.foldlM { r with schedule, store }.processOne .empty := by
  have h := Session.foldlM_map (processOne_append hfailure hp) elements .empty
  rw [Staging.append_empty] at h
  exact h

theorem bundleSession_eq {r : Runner μ ι ο ρ σ} (h : r.operator.function.Unbracketed)
    (elements : List (Element ι)) :
    r.bundleSession elements = elements.foldlM r.processOne .empty := by
  funext memory
  unfold bundleSession
  rw [h.startBundle, Context.callback_success rfl, pure_bind]
  have hends := r.ends_elements_committable elements Staging.committable_empty memory
  show (elements.foldlM r.processOne .empty >>= _).run memory =
    (elements.foldlM r.processOne .empty).run memory
  rw [Session.run_bind]
  cases hrun : (elements.foldlM r.processOne .empty).run memory with
  | mk result memory' =>
    rw [Session.Ends, hrun] at hends
    cases result with
    | error e => rfl
    | ok s =>
      dsimp only
      rw [h.finishBundle, Context.callback_success hends.failure]
      rfl

theorem run_elements_append {r : Runner μ ι ο ρ σ} {xs : List (Element ι)} {p : Staging ι ο}
    {memory memory' : μ} (hxs : (xs.foldlM r.processOne .empty).run memory = (.ok p, memory'))
    (hfailure : p.failure = none) {schedule : Schedule} {store : Option σ}
    (hp : p.Applied r.schedule r.store schedule store) (ys : List (Element ι)) :
    ((xs ++ ys).foldlM r.processOne .empty).run memory =
      (((ys.foldlM { r with schedule, store }.processOne .empty).run memory').1.map (p ++ ·),
        ((ys.foldlM { r with schedule, store }.processOne .empty).run memory').2) := by
  rw [List.foldlM_append, Session.run_bind, hxs]
  dsimp only
  rw [elements_append hfailure hp, Session.run_map]

/-- Work on the elements as one bundle staged `s`, and the schedule takes its operations. -/
structure Staged (r : Runner μ ι ο ρ σ) (elements : List (Element ι)) (s : Staging ι ο)
    (schedule : Schedule) (memory : μ) : Prop where
  work : (elements.foldlM r.processOne .empty).run r.memory = (.ok s, memory)
  schedule : r.schedule.applyOps s.timerOps = .ok schedule
  committable : s.Committable

theorem exists_staged {r : Runner μ ι ο ρ σ} {elements : List (Element ι)} {s : Staging ι ο}
    {memory : μ} (h : (elements.foldlM r.processOne .empty).run r.memory = (.ok s, memory)) :
    ∃ schedule, r.Staged elements s schedule memory := by
  have hs : s.Committable :=
    (r.ends_elements_committable elements Staging.committable_empty r.memory).gives _ _ h
  obtain ⟨schedule, hschedule⟩ := Schedule.exists_applyOps hs.served r.schedule
  exact ⟨schedule, h, hschedule, hs⟩

theorem Staged.left {r : Runner μ ι ο ρ σ} {xs ys : List (Element ι)} {s : Staging ι ο}
    {schedule : Schedule} {memory : μ} (h : r.Staged (xs ++ ys) s schedule memory) :
    ∃ p schedule memory, r.Staged xs p schedule memory := by
  have hwork := h.work
  rw [List.foldlM_append, Session.run_bind] at hwork
  cases hxs : (xs.foldlM r.processOne .empty).run r.memory with
  | mk outcome memory' =>
    rw [hxs] at hwork
    cases outcome with
    | error e => cases hwork
    | ok p =>
      obtain ⟨schedule', hp⟩ := exists_staged hxs
      exact ⟨p, schedule', memory', hp⟩

end Elements

variable {r r' : Runner μ ι ο ρ Cells} {xs ys elements : List (Element ι)} {p s t : Staging ι ο}
  {schedule schedule' : Schedule} {memory memory' : μ} {result : CallResult ι ο}

theorem processBundle_eq_ok_iff (h : r.operator.function.Unbracketed)
    (hready : r.lifecycle ≠ .created) :
    r.processBundle elements = (.ok result, r') ↔
      ∃ s schedule memory, r.Staged elements s schedule memory ∧
        result = r.resultOf s ∧ r' = r.afterBundle s schedule memory := by
  unfold processBundle commitBundle executeBundle
  rw [setup_eq_of_ne_created hready]
  dsimp only
  rw [inSession, bundleSession_eq h]
  cases hrun : (elements.foldlM r.processOne .empty).run r.memory with
  | mk outcome memory =>
    cases outcome with
    | error e =>
      constructor
      · intro hcall
        cases hcall
      · rintro ⟨s, schedule, memory', hs, -⟩
        have hwork := hs.work
        rw [hrun] at hwork
        cases hwork
    | ok s =>
      obtain ⟨schedule, hs⟩ := exists_staged hrun
      dsimp only [commit]
      rw [hs.schedule, applyWrites_cells]
      constructor
      · intro hcall
        cases hcall
        exact ⟨s, schedule, memory, hs, rfl, rfl⟩
      · rintro ⟨s', schedule', memory', hs', rfl, rfl⟩
        have hwork := hs'.work
        rw [hrun] at hwork
        cases hwork
        have hschedule := hs'.schedule
        rw [hs.schedule] at hschedule
        cases hschedule
        rfl

theorem Staged.append_iff (hp : r.Staged xs p schedule memory) :
    r.Staged (xs ++ ys) t schedule' memory' ↔
      ∃ s, (r.afterBundle p schedule memory).Staged ys s schedule' memory' ∧ t = p ++ s := by
  -- What the first part staged is committed by now, and is found there by every read.
  have happlied := p.applied_cells hp.schedule r.store
  have hwork : ((xs ++ ys).foldlM r.processOne .empty).run r.memory =
      (((ys.foldlM (r.afterBundle p schedule memory).processOne .empty).run memory).1.map (p ++ ·),
        ((ys.foldlM (r.afterBundle p schedule memory).processOne .empty).run memory).2) :=
    run_elements_append hp.work hp.committable.failure happlied ys
  -- The operations of both parts in one go are those of the second after those of the first.
  have hschedule (s : Staging ι ο) :
      r.schedule.applyOps (p ++ s).timerOps = schedule.applyOps s.timerOps := by
    rw [Staging.timerOps_append, Schedule.applyOps_append, hp.schedule]
    rfl
  constructor
  · intro ht
    rw [ht.work] at hwork
    cases hys : (ys.foldlM (r.afterBundle p schedule memory).processOne .empty).run memory with
    | mk outcome memory'' =>
      rw [hys] at hwork
      cases outcome with
      | error e => cases hwork
      | ok s =>
        cases hwork
        obtain ⟨schedule'', hs⟩ := exists_staged hys
        have ht' := ht.schedule
        rw [hschedule, show schedule.applyOps s.timerOps = .ok schedule'' from hs.schedule] at ht'
        cases ht'
        exact ⟨s, hs, rfl⟩
  · rintro ⟨s, hs, rfl⟩
    have hys : (ys.foldlM (r.afterBundle p schedule memory).processOne .empty).run memory =
        (.ok s, memory') := hs.work
    rw [hys] at hwork
    obtain ⟨schedule'', ht⟩ := exists_staged hwork
    refine ⟨hwork, ?_, ht.committable⟩
    rw [hschedule]
    exact hs.schedule

theorem processBundle_append_iff_of_ready (h : r.operator.function.Unbracketed)
    (hready : r.lifecycle ≠ .created) :
    r.processBundle (xs ++ ys) = (.ok result, r') ↔
      ∃ first mid second, r.processBundle xs = (.ok first, mid) ∧
        mid.processBundle ys = (.ok second, r') ∧ result = first.append second := by
  have hafter (p : Staging ι ο) (schedule : Schedule) (memory : μ) {second : CallResult ι ο} :
      (r.afterBundle p schedule memory).processBundle ys = (.ok second, r') ↔
        ∃ s schedule' memory', (r.afterBundle p schedule memory).Staged ys s schedule' memory' ∧
          second = (r.afterBundle p schedule memory).resultOf s ∧
          r' = (r.afterBundle p schedule memory).afterBundle s schedule' memory' :=
    processBundle_eq_ok_iff h hready
  constructor
  · intro hwhole
    obtain ⟨t, schedule', memory', ht, hresult, hr'⟩ := (processBundle_eq_ok_iff h hready).1 hwhole
    obtain ⟨p, schedule, memory, hp⟩ := ht.left
    obtain ⟨s, hs, rfl⟩ := hp.append_iff.1 ht
    rw [r.resultOf_append p s schedule memory] at hresult
    rw [r.afterBundle_append p s schedule schedule' memory memory'] at hr'
    have hfirst := (processBundle_eq_ok_iff h hready).2 ⟨p, schedule, memory, hp, rfl, rfl⟩
    have hsecond := (hafter p schedule memory).2 ⟨s, schedule', memory', hs, rfl, hr'⟩
    exact ⟨_, _, _, hfirst, hsecond, hresult⟩
  · rintro ⟨first, mid, second, hfirst, hsecond, hresult⟩
    obtain ⟨p, schedule, memory, hp, rfl, rfl⟩ := (processBundle_eq_ok_iff h hready).1 hfirst
    obtain ⟨s, schedule', memory', hs, rfl, hr'⟩ := (hafter p schedule memory).1 hsecond
    rw [← r.resultOf_append p s schedule memory] at hresult
    rw [← r.afterBundle_append p s schedule schedule' memory memory'] at hr'
    have ht := hp.append_iff.2 ⟨s, hs, rfl⟩
    exact (processBundle_eq_ok_iff h hready).2 ⟨p ++ s, schedule', memory', ht, hresult, hr'⟩

theorem processBundle_of_setup_ok {r₁ : Runner μ ι ο ρ Cells} (h : r.setup = (.ok (), r₁)) :
    r.processBundle elements = r₁.processBundle elements := by
  unfold processBundle commitBundle executeBundle
  rw [h, setup_eq_of_ne_created (lifecycle_ne_created_of_setup_ok h)]

theorem processBundle_of_setup_error {r₁ : Runner μ ι ο ρ Cells} {e : ExecutionError}
    (h : r.setup = (.error e, r₁)) : r.processBundle elements = (.error e, r₁) := by
  unfold processBundle commitBundle executeBundle
  rw [h]

theorem processBundle_append_iff (h : r.operator.function.Unbracketed) :
    r.processBundle (xs ++ ys) = (.ok result, r') ↔
      ∃ first mid second, r.processBundle xs = (.ok first, mid) ∧
        mid.processBundle ys = (.ok second, r') ∧ result = first.append second := by
  cases hsetup : r.setup with
  | mk outcome r₁ =>
    cases outcome with
    | error e =>
      rw [processBundle_of_setup_error hsetup, processBundle_of_setup_error hsetup]
      constructor
      · intro hwhole
        cases hwhole
      · rintro ⟨_, _, _, hfirst, -⟩
        cases hfirst
    | ok _ =>
      have hoperator : r₁.operator = r.operator := by
        have hframe := congrArg operator r.setup_frame
        rw [hsetup] at hframe
        exact hframe
      rw [processBundle_of_setup_ok hsetup, processBundle_of_setup_ok hsetup]
      rw [← hoperator] at h
      exact processBundle_append_iff_of_ready h (lifecycle_ne_created_of_setup_ok hsetup)

theorem outputs_of_processBundle (h : r.processBundle elements = (.ok result, r')) :
    result.outputs.side.map Prod.fst = r.outputs.side ∧ r'.outputs = r.outputs := by
  unfold processBundle at h
  cases hcommit : r.commitBundle elements with
  | mk outcome r₁ =>
    rw [hcommit] at h
    cases outcome with
    | error e => cases h
    | ok s =>
      obtain ⟨-, -, -, hframe⟩ := run_of_commitBundle_ok hcommit
      have houtputs : r₁.outputs = r.outputs := by rw [hframe]
      cases h
      refine ⟨?_, houtputs⟩
      rw [← houtputs]
      exact Outputs.map_fst_side_ofEmissions r₁.outputs s.outputs

/-- Where elements go over into another bundle cannot be told. The one bundle succeeds if and only
if the two succeed, it leaves the same runner, with its cells, its timers, its buffer and its
watermarks, and gives what the two give, one after the other on each channel. -/
theorem processBundle_append (r : Runner μ ι ο ρ Cells) (h : r.operator.function.Unbracketed)
    (xs ys : List (Element ι)) :
    ((∃ whole r', r.processBundle (xs ++ ys) = (.ok whole, r')) ↔
      ∃ first mid second r', r.processBundle xs = (.ok first, mid) ∧
        mid.processBundle ys = (.ok second, r')) ∧
    ∀ first mid second r', r.processBundle xs = (.ok first, mid) →
      mid.processBundle ys = (.ok second, r') →
      r.processBundle (xs ++ ys) = (.ok (first.append second), r') ∧
        first.outputs.side.map Prod.fst = r.outputs.side ∧
        second.outputs.side.map Prod.fst = r.outputs.side := by
  refine ⟨⟨?_, ?_⟩, ?_⟩
  · rintro ⟨whole, r', hwhole⟩
    obtain ⟨first, mid, second, hfirst, hsecond, -⟩ := (processBundle_append_iff h).1 hwhole
    exact ⟨first, mid, second, r', hfirst, hsecond⟩
  · rintro ⟨first, mid, second, r', hfirst, hsecond⟩
    exact ⟨_, r', (processBundle_append_iff h).2 ⟨first, mid, second, hfirst, hsecond, rfl⟩⟩
  · intro first mid second r' hfirst hsecond
    obtain ⟨hfirstTags, hmid⟩ := outputs_of_processBundle hfirst
    have hsecondTags := (outputs_of_processBundle hsecond).1
    rw [hmid] at hsecondTags
    have hwhole := (processBundle_append_iff h).2 ⟨first, mid, second, hfirst, hsecond, rfl⟩
    exact ⟨hwhole, hfirstTags, hsecondTags⟩

/-- Passes on how long its cell is, and makes the cell longer. -/
def tally : Operator Unit Nat Nat where
  function := {
    processElement := fun _ m =>
      .ask (.readState .global "tally" fun _ => true) fun content =>
        .ask (.writeState .global "tally" (some (0 :: (content.toOption.bind id).getD []))) fun _ =>
          .ask (.setTimer (.eventTime .global "report" ⟨50⟩)) fun _ =>
            .ask (.output ((content.toOption.bind id).getD []).length) fun _ =>
              .done (.success m) }
  encodeKey := some fun _ => .ok ⟨[7]⟩

def tallyStart : Runner Unit Nat Nat NoSideInputs Cells where
  operator := tally
  outputs := ⟨"main", []⟩
  reader := ⟨⟩
  pushback := .empty
  watermark := .start false
  schedule := .empty
  store := some .empty
  lifecycle := .created
  memory := ()

theorem tally_append :
    ∃ first mid second r',
      tallyStart.processBundle [.inGlobalWindow 1 ⟨10⟩] = (.ok first, mid) ∧
      mid.processBundle [.inGlobalWindow 2 ⟨20⟩] = (.ok second, r') ∧
      tallyStart.processBundle [.inGlobalWindow 1 ⟨10⟩, .inGlobalWindow 2 ⟨20⟩] =
        (.ok (first.append second), r') ∧
      (first.append second).outputs.mainData.map Element.value = [0, 1] := by
  have hbare : tallyStart.operator.function.Unbracketed := ⟨rfl, rfl⟩
  have hvalues : ((tallyStart.processBundle
      [.inGlobalWindow 1 ⟨10⟩, .inGlobalWindow 2 ⟨20⟩]).1.toOption.map fun result =>
        result.outputs.mainData.map Element.value) = some [0, 1] := by
    decide +kernel
  obtain ⟨hsplit, hsame⟩ := tallyStart.processBundle_append hbare
    [.inGlobalWindow 1 ⟨10⟩] [.inGlobalWindow 2 ⟨20⟩]
  cases hcall : tallyStart.processBundle [.inGlobalWindow 1 ⟨10⟩, .inGlobalWindow 2 ⟨20⟩] with
  | mk outcome r₁ =>
    rw [hcall] at hvalues
    cases outcome with
    | error e => cases hvalues
    | ok whole =>
      obtain ⟨first, mid, second, r', hfirst, hsecond⟩ := hsplit.1 ⟨whole, r₁, hcall⟩
      have hwhole := (hsame first mid second r' hfirst hsecond).1
      have heq := hcall.symm.trans hwhole
      cases heq
      exact ⟨first, mid, second, r₁, hfirst, hsecond, rfl, Option.some.inj hvalues⟩

end Runner

end StreamOperator
