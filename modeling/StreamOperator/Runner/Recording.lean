import StreamOperator.Function.Recording
import StreamOperator.Runner.Calls

/-! The record of a call: what the function was called for in it and what it asked. A runner of a
recorded function gives the answers of the plain one and reaches its states, and what a call adds
to the record does not depend on the record before it. -/

namespace StreamOperator

def Operator.recorded {μ ι ο : Type} (o : Operator μ ι ο) :
    Operator (μ × List (Event ι ο)) ι ο :=
  { o with function := o.function.recorded }

namespace Runner

variable {μ ι ο ρ σ : Type}

/-- The runner with a recorded function, and a record to go on from. -/
def recorded (r : Runner μ ι ο ρ σ) (log : List (Event ι ο)) :
    Runner (μ × List (Event ι ο)) ι ο ρ σ :=
  { r with operator := r.operator.recorded, memory := (r.memory, log) }

/-- An operation on recorded runners that does what an operation on a plain one does. -/
def Records {α : Type} (x : List (Event ι ο) → α × Runner (μ × List (Event ι ο)) ι ο ρ σ)
    (y : α × Runner μ ι ο ρ σ) : Prop :=
  ∃ events, ∀ log, x log = (y.1, y.2.recorded (log ++ events))

theorem records_inSession {α : Type} (r : Runner μ ι ο ρ σ)
    {x : Session (μ × List (Event ι ο)) α} {y : Session μ α} (h : x.Records y) :
    Records (fun log => (r.recorded log).inSession x) (r.inSession y) := by
  obtain ⟨es, h⟩ := h r.memory
  refine ⟨es, fun log => ?_⟩
  have h : x.run (r.recorded log).memory = _ := h log
  simp only [inSession, h]
  rfl

theorem records_setup (r : Runner μ ι ο ρ σ) :
    Records (fun log => (r.recorded log).setup) r.setup := by
  by_cases h : r.lifecycle = .created
  · rcases hs : r.operator.function.setup r.memory with ⟨_ | _, memory⟩ <;>
      exact ⟨[.called .setup none, .ended (r.operator.function.setup r.memory).result],
        fun log => by simp [setup, recorded, Operator.recorded, UserFunction.recorded,
          Outcome.recorded, h, hs]⟩
  · exact ⟨[], fun log => by simp [setup, recorded, h]⟩

theorem records_teardown (r : Runner μ ι ο ρ σ) :
    Records (fun log => (r.recorded log).teardown) r.teardown := by
  by_cases h : r.lifecycle = .active
  · rcases hs : r.operator.function.teardown r.memory with ⟨_ | _, memory⟩ <;>
      exact ⟨[.called .teardown none, .ended (r.operator.function.teardown r.memory).result],
        fun log => by simp [teardown, recorded, Operator.recorded, UserFunction.recorded,
          Outcome.recorded, h, hs]⟩
  · exact ⟨[], fun log => by simp [teardown, recorded, h]⟩

theorem commit_recorded [StateStore σ] (r : Runner μ ι ο ρ σ) (s : Staging ι ο)
    (log : List (Event ι ο)) :
    (r.recorded log).commit s = ((r.commit s).1, (r.commit s).2.recorded log) := by
  have h : (r.recorded log).schedule = r.schedule := rfl
  have h' : (r.recorded log).store = r.store := rfl
  simp only [commit, h, h']
  cases r.schedule.applyOps s.timerOps with
  | error e => rfl
  | ok schedule => rcases applyWrites r.store s.writes with ⟨_ | _, store⟩ <;> rfl

variable [SideInputReader ρ] [StateStore σ]

theorem records_processOne (r : Runner μ ι ο ρ σ) (log : List (Event ι ο)) (s : Staging ι ο)
    (e : Element ι) :
    Session.Records ((r.recorded log).processOne s e) (r.processOne s e) := by
  refine .bind (fun memory => ?_) fun key => .bind (.foldlM (fun s piece => ?_) _ _) fun s => ?_
  · exact ⟨[], fun log => by simp only [List.append_nil]; rfl⟩
  · exact Context.records_callback _ _ _ _ _
  · exact .of_pure _

theorem records_bundleSession (r : Runner μ ι ο ρ σ) (log : List (Event ι ο))
    (elements : List (Element ι)) :
    Session.Records ((r.recorded log).bundleSession elements) (r.bundleSession elements) :=
  .bind (Context.records_callback _ _ _ _ _) fun _ =>
    .bind (.foldlM (r.records_processOne log) _ _) fun _ => Context.records_callback _ _ _ _ _

theorem records_executeBundle (r : Runner μ ι ο ρ σ) (elements : List (Element ι)) :
    Records (fun log => (r.recorded log).executeBundle elements) (r.executeBundle elements) := by
  obtain ⟨es, h⟩ := r.records_setup
  rcases hs : r.setup with ⟨_ | _, r'⟩
  · exact ⟨es, fun log => by simp only [executeBundle, h, hs]⟩
  · obtain ⟨fs, h'⟩ := r'.records_inSession (r'.records_bundleSession [] elements)
    refine ⟨es ++ fs, fun log => ?_⟩
    simp only [executeBundle, h, hs, ← List.append_assoc]
    exact h' (log ++ es)

theorem records_commitBundle (r : Runner μ ι ο ρ σ) (elements : List (Element ι)) :
    Records (fun log => (r.recorded log).commitBundle elements) (r.commitBundle elements) := by
  obtain ⟨es, h⟩ := r.records_executeBundle elements
  refine ⟨es, fun log => ?_⟩
  rcases he : r.executeBundle elements with ⟨_ | s, r'⟩
  · simp only [commitBundle, h, he]
  · simp only [commitBundle, h, he, commit_recorded]
    rcases r'.commit s with ⟨_ | _, _⟩ <;> rfl

theorem records_processBundle (r : Runner μ ι ο ρ σ) (elements : List (Element ι)) :
    Records (fun log => (r.recorded log).processBundle elements) (r.processBundle elements) := by
  obtain ⟨es, h⟩ := r.records_commitBundle elements
  refine ⟨es, fun log => ?_⟩
  rcases he : r.commitBundle elements with ⟨_ | s, r'⟩
  · simp only [processBundle, h, he]
  · simp only [processBundle, h, he]
    rfl

theorem records_replay (r : Runner μ ι ο ρ σ) :
    Records (fun log => (r.recorded log).replay) r.replay := by
  by_cases hp : r.pushback.isEmpty
  · exact ⟨[], fun log => by
      have hp' : (r.recorded log).pushback.isEmpty = true := hp
      simp only [replay, hp, hp', if_true, List.append_nil]
      rfl⟩
  · obtain ⟨es, h⟩ := r.records_commitBundle r.pushback.elements
    refine ⟨es, fun log => ?_⟩
    have hp' : ¬ (r.recorded log).pushback.isEmpty = true := hp
    have h : (r.recorded log).commitBundle (r.recorded log).pushback.elements = _ := h log
    simp only [replay, hp, hp', h]
    rcases r.commitBundle r.pushback.elements with ⟨_ | s, r'⟩ <;> rfl

theorem records_processSideInput (r : Runner μ ι ο ρ σ) (index : Nat)
    (message : StreamMessage SideValue) :
    Records (fun log => (r.recorded log).processSideInput index message)
      (r.processSideInput index message) := by
  cases hv : r.operator.views[index]? with
  | none => 
    exact ⟨[], fun log => by
      have hv' : (r.recorded log).operator.views[index]? = none := hv
      simp only [processSideInput, hv, hv', List.append_nil]
      rfl⟩
  | some view =>
    cases message with
    | watermark t =>
      exact ⟨[], fun log => by
        have hv' : (r.recorded log).operator.views[index]? = some view := hv
        simp only [processSideInput, hv, hv', List.append_nil]
        rfl⟩
    | data value =>
      obtain ⟨es, h⟩ := (r.materialize view value).records_replay
      refine ⟨es, fun log => ?_⟩
      have hv' : (r.recorded log).operator.views[index]? = some view := hv
      have h : ((r.recorded log).materialize view value).replay = _ := h log
      simp only [processSideInput, hv, hv', h]
      rcases (r.materialize view value).replay with ⟨_ | _, _⟩ <;> rfl

theorem records_applyStaged (schedule : Schedule) (s : Staging ι ο) :
    Session.Records (applyStaged (μ := μ × List (Event ι ο)) schedule s)
      (applyStaged (μ := μ) schedule s) := by
  unfold applyStaged
  cases schedule.applyOps s.timerOps with
  | ok schedule => exact .of_pure _
  | error e => exact .of_throw _

theorem records_fireRounds (r : Runner μ ι ο ρ σ) (log : List (Event ι ο)) (input : Instant)
    (fuel : Nat) (due : List FiredTimer) (schedule : Schedule) (s : Staging ι ο) :
    Session.Records ((r.recorded log).fireRounds input fuel due schedule s)
      (r.fireRounds input fuel due schedule s) := by
  have round (due : List FiredTimer) (schedule : Schedule) (s : Staging ι ο) :
      Session.Records ((r.recorded log).fireRound input due schedule s)
        (r.fireRound input due schedule s) :=
    .bind (.foldlM (fun _ _ => Context.records_callback _ _ _ _ _) _ _) fun _ => records_applyStaged _ _
  induction fuel generalizing due schedule s with
  | zero =>
    unfold fireRounds
    refine .bind (round due schedule s) fun (schedule, s) => ?_
    dsimp only
    rcases schedule.popDue input with ⟨_ | _, schedule⟩
    · exact .of_pure _
    · exact .of_throw _
  | succ fuel ih =>
    unfold fireRounds
    refine .bind (round due schedule s) fun (schedule, s) => ?_
    dsimp only
    rcases schedule.popDue input with ⟨_ | _, schedule⟩
    · exact .of_pure _
    · exact ih _ _ _

theorem fireRounds_recorded (r : Runner μ ι ο ρ σ) (log : List (Event ι ο)) (input : Instant)
    (fuel : Nat) (due : List FiredTimer) (schedule : Schedule) (s : Staging ι ο) :
    (r.recorded log).fireRounds input fuel due schedule s =
      (r.recorded []).fireRounds input fuel due schedule s := by
  induction fuel generalizing due schedule s with
  | zero =>
    unfold fireRounds
    rfl
  | succ fuel ih =>
    unfold fireRounds
    simp only [ih]
    rfl

theorem records_firePass (r : Runner μ ι ο ρ σ) (input : Instant) :
    Records (fun log => (r.recorded log).firePass input) (r.firePass input) := by
  have pass (due : List FiredTimer) (schedule : Schedule) :
      Session.Records ((r.recorded []).passSession input due schedule)
        (r.passSession input due schedule) :=
    .bind (Context.records_callback _ _ _ _ _) fun _ => .bind (r.records_fireRounds [] _ _ _ _ _) fun _ =>
      .bind (Context.records_callback _ _ _ _ _) fun _ => records_applyStaged _ _
  rcases hd : r.schedule.popDue input with ⟨_ | ⟨fired, due⟩, schedule⟩
  · exact ⟨[], fun log => by
      have hd' : (r.recorded log).schedule.popDue input = _ := hd
      simp only [firePass, hd, hd', List.append_nil]⟩
  · obtain ⟨es, h⟩ := r.records_inSession (pass (fired :: due) schedule)
    refine ⟨es, fun log => ?_⟩
    have hd' : (r.recorded log).schedule.popDue input = _ := hd
    simp only [firePass, hd, hd', passSession, fireRounds_recorded r log]
    exact h log

theorem records_processWatermark (r : Runner μ ι ο ρ σ) (time : Instant) :
    Records (fun log => (r.recorded log).processWatermark time) (r.processWatermark time) := by
  obtain ⟨es, h⟩ := r.records_setup
  rcases hs : r.setup with ⟨_ | _, r'⟩
  · exact ⟨es, fun log => by simp only [processWatermark, h, hs]⟩
  cases hw : r'.watermark.advance time r'.pushback.minTimestamp with
  | error e =>
    exact ⟨es, fun log => by
      have hw' : (r'.recorded (log ++ es)).watermark.advance time
        (r'.recorded (log ++ es)).pushback.minTimestamp = _ := hw
      simp only [processWatermark, h, hs, hw, hw']⟩
  | ok next =>
    obtain ⟨fs, h'⟩ := r'.records_firePass time
    refine ⟨es ++ fs, fun log => ?_⟩
    have hw' : (r'.recorded (log ++ es)).watermark.advance time
      (r'.recorded (log ++ es)).pushback.minTimestamp = _ := hw
    simp only [processWatermark, h, hs, hw, hw', h', List.append_assoc]
    rcases r'.firePass time with ⟨_ | ⟨schedule, s⟩, r''⟩
    · rfl
    · simp only [commit_recorded]
      rcases r''.commit s with ⟨_ | _, _⟩ <;> rfl

theorem records_call (r : Runner μ ι ο ρ σ) (c : Call ι) :
    Records (fun log => (r.recorded log).call c) (r.call c) := by
  cases c with
  | setup =>
    obtain ⟨es, h⟩ := r.records_setup
    exact ⟨es, fun log => by simp only [call, h]; rfl⟩
  | bundle elements => exact r.records_processBundle elements
  | sideInput index message => exact r.records_processSideInput index message
  | watermark time => exact r.records_processWatermark time
  | teardown =>
    obtain ⟨es, h⟩ := r.records_teardown
    exact ⟨es, fun log => by simp only [call, h]; rfl⟩

/-- What the function was called for and what it asked in a call. -/
def events (r : Runner μ ι ο ρ σ) (c : Call ι) : List (Event ι ο) :=
  ((r.recorded []).call c).2.memory.2

theorem call_recorded (r : Runner μ ι ο ρ σ) (log : List (Event ι ο)) (c : Call ι) :
    (r.recorded log).call c = ((r.call c).1, (r.call c).2.recorded (log ++ r.events c)) := by
  obtain ⟨es, h⟩ := r.records_call c
  have hes : r.events c = es := by
    show ((fun log => (r.recorded log).call c) []).2.memory.2 = es
    rw [h]
    rfl
  rw [hes]
  exact h log

def eventsOf (r : Runner μ ι ο ρ σ) : List (Call ι) → List (Event ι ο)
  | [] => []
  | c :: cs => r.events c ++ (r.call c).2.eventsOf cs

theorem calls_recorded (r : Runner μ ι ο ρ σ) (log : List (Event ι ο)) (cs : List (Call ι)) :
    (r.recorded log).calls cs =
      ((r.calls cs).1, (r.calls cs).2.recorded (log ++ r.eventsOf cs)) := by
  induction cs generalizing r log with
  | nil => simp only [calls, eventsOf, List.append_nil]
  | cons c cs ih => simp only [calls, eventsOf, call_recorded, ih, List.append_assoc]

end Runner

end StreamOperator
