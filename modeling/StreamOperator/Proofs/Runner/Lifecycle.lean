import StreamOperator.Proofs.Function.Order
import StreamOperator.Proofs.Runner.Sound

/-! The life of a function under a runner. It is set up once, every bundle and every pass over
timers has its start first and its finish last, and it is torn down once, after it was set up. Only
the work itself does not end there: a runner that was torn down goes on to call a function that it
has torn down, or that it never set up. -/

namespace StreamOperator

variable {μ ι ο ρ σ : Type}

namespace Event

variable {xs ys log session : List (Event ι ο)} {occasion : Occasion ι}

def SetUp (log : List (Event ι ο)) : Prop :=
  [called .setup none, ended (.ok ())] <:+: log

def TornDown (log : List (Event ι ο)) : Prop := ∃ key, called .teardown key ∈ log

/-- The function is not set up again, and it is called for everything else between setting up and
tearing down. -/
def InOrder (before : List (Event ι ο)) : Occasion ι → Prop
  | .setup => ¬ SetUp before
  | _ => SetUp before ∧ ¬ TornDown before

theorem setUp_append (h : ∀ e ∈ ys.head?, e.isCall) :
    SetUp (xs ++ ys) ↔ SetUp xs ∨ SetUp ys := by
  constructor
  · intro hsetup
    obtain ⟨before, after, heq⟩ := hsetup
    rw [List.append_assoc] at heq
    rcases List.append_eq_append_iff.1 heq with ⟨zs, hxs, hzs⟩ | ⟨zs, hbefore, hys⟩
    · cases zs with
      | nil => exact Or.inr ⟨[], after, by simpa using hzs⟩
      | cons z zs =>
        cases zs with
        | nil =>
          -- The setup would have to end at the head of the second part.
          cases hzs
          cases h _ rfl
        | cons z' zs =>
          cases hzs
          exact Or.inl ⟨before, zs, by simp [hxs]⟩
    · exact Or.inr ⟨zs, after, by rw [List.append_assoc, hys]⟩
  · intro hsetup
    cases hsetup with
    | inl hxs => exact hxs.trans (List.prefix_append _ _).isInfix
    | inr hys => exact hys.trans (List.suffix_append _ _).isInfix

theorem tornDown_append : TornDown (xs ++ ys) ↔ TornDown xs ∨ TornDown ys := by
  simp only [TornDown, List.mem_append, exists_or]

theorem Bracketed.isWork (h : Bracketed session) {key : Option EncodedKey}
    (hcalled : called occasion key ∈ session) : occasion.isWork := by
  obtain ⟨before, after, heq⟩ := List.append_of_mem hcalled
  have hrule := h.order before occasion key after heq
  cases occasion with
  | setup | teardown => cases hrule
  | startBundle | element | timer | finishBundle => rfl

theorem Bracketed.lived (h : Bracketed session) (log : List (Event ι ο)) (hfirst : xs <+: session) :
    (SetUp (log ++ xs) ↔ SetUp log) ∧ (TornDown (log ++ xs) ↔ TornDown log) := by
  have hwork (o : Occasion ι) (key : Option EncodedKey) (ho : o.isWork = false) :
      called o key ∉ xs := by
    intro hcalled
    rw [h.isWork (hfirst.subset hcalled)] at ho
    cases ho
  have hhead : ∀ e ∈ xs.head?, e.isCall := by
    intro e he
    obtain ⟨rest, heq⟩ := hfirst
    obtain ⟨key, tail, hstarts⟩ := h.starts
    cases xs with
    | nil => cases he
    | cons x xs =>
      cases he
      rw [← heq] at hstarts
      cases hstarts
      rfl
  have hsetup : ¬ SetUp xs := fun hxs => hwork .setup none rfl (hxs.subset List.mem_cons_self)
  have hdown : ¬ TornDown xs := fun hxs => by
    obtain ⟨key, hkey⟩ := hxs
    exact hwork .teardown key rfl hkey
  rw [setUp_append hhead, tornDown_append]
  exact ⟨or_iff_left hsetup, or_iff_left hdown⟩

theorem Bracketed.keeps_inOrder_iff (h : Bracketed session) (log : List (Event ι ο)) :
    Keeps (fun before => InOrder (log ++ before)) session ↔ SetUp log ∧ ¬ TornDown log := by
  constructor
  · intro hkeeps
    obtain ⟨key, rest, hstarts⟩ := h.starts
    have hstart := hkeeps [] .startBundle key rest hstarts
    dsimp only at hstart
    rw [List.append_nil] at hstart
    exact hstart
  · intro hlog before occasion key after heq
    have hmem : called occasion key ∈ session := by
      rw [heq]
      exact List.mem_append_right _ List.mem_cons_self
    obtain ⟨hsetup, hdown⟩ := h.lived log ⟨_, heq.symm⟩
    have hwork := h.isWork hmem
    cases occasion with
    | setup | teardown => cases hwork
    | startBundle | element | timer | finishBundle =>
      exact ⟨hsetup.2 hlog.1, fun hd => hlog.2 (hdown.1 hd)⟩

def setups (result : Except String Unit) : List (Event ι ο) :=
  [called .setup none, ended result]

theorem lived_setups (log : List (Event ι ο)) (result : Except String Unit) :
    (SetUp (log ++ setups result) ↔ SetUp log ∨ result = .ok ()) ∧
      (TornDown (log ++ setups result) ↔ TornDown log) := by
  have hsetup : SetUp (setups result : List (Event ι ο)) ↔ result = .ok () := by
    constructor
    · intro h
      have heq := h.eq_of_length rfl
      injection heq with _ htail
      injection htail with hended _
      injection hended with hresult
      exact hresult.symm
    · intro h
      rw [h]
      exact List.infix_refl _
  have hdown : ¬ TornDown (setups result : List (Event ι ο)) := by
    intro h
    obtain ⟨key, hkey⟩ := h
    simp [setups] at hkey
  rw [setUp_append (by simp [setups, isCall]), hsetup, tornDown_append]
  exact ⟨Iff.rfl, or_iff_left hdown⟩

theorem keeps_setups {rule : List (Event ι ο) → Occasion ι → Prop} (h : rule [] .setup)
    (result : Except String Unit) : Keeps rule (setups result) :=
  (keeps_cons_called (by simp [isCall])).2 h

end Event

namespace Lifecycle

open Event

def Lived (log : List (Event ι ο)) : Lifecycle → Prop
  | created => ¬ SetUp log ∧ ¬ TornDown log
  | active => SetUp log ∧ ¬ TornDown log
  | tornDown => ¬ (SetUp log ∧ ¬ TornDown log)

theorem lived_nil : created.Lived ([] : List (Event ι ο)) := by
  constructor
  · intro h
    cases h.subset List.mem_cons_self
  · intro h
    obtain ⟨key, hkey⟩ := h
    cases hkey

/-- The courses that a call may take, other than tearing down. -/
inductive Course : Lifecycle → List (Event ι ο) → Lifecycle → Prop
  | idle (l : Lifecycle) : Course l [] l
  | refused (cause : String) : Course created (setups (.error cause)) created
  | setUp {session : List (Event ι ο)} (work : session = [] ∨ Bracketed session) :
      Course created (setups (.ok ()) ++ session) active
  | work {l : Lifecycle} {session : List (Event ι ο)} (ready : l ≠ created)
      (work : Bracketed session) : Course l session l

variable {l l' : Lifecycle} {log events : List (Event ι ο)}

theorem Course.lived (h : Course l events l') (hl : l.Lived log) : l'.Lived (log ++ events) := by
  cases h with
  | idle =>
    rw [List.append_nil]
    exact hl
  | refused cause =>
    obtain ⟨hsetup, hdown⟩ := lived_setups log (.error cause)
    exact ⟨fun h => hl.1 ((hsetup.1 h).resolve_right (by intro h; cases h)),
      fun h => hl.2 (hdown.1 h)⟩
  | setUp work =>
    obtain ⟨hsetup, hdown⟩ := lived_setups log (.ok ())
    have hlived : active.Lived (log ++ setups (.ok ())) :=
      ⟨hsetup.2 (Or.inr rfl), fun h => hl.2 (hdown.1 h)⟩
    cases work with
    | inl hnil =>
      rw [hnil, List.append_nil]
      exact hlived
    | inr work =>
      obtain ⟨hsetup, hdown⟩ := work.lived (log ++ setups (.ok ())) (List.prefix_refl _)
      rw [← List.append_assoc]
      exact ⟨hsetup.2 hlived.1, fun h => hlived.2 (hdown.1 h)⟩
  | work ready work =>
    obtain ⟨hsetup, hdown⟩ := work.lived log (List.prefix_refl _)
    cases l with
    | created => exact absurd rfl ready
    | active => exact ⟨hsetup.2 hl.1, fun h => hl.2 (hdown.1 h)⟩
    | tornDown => exact fun h => hl ⟨hsetup.1 h.1, fun hd => h.2 (hdown.2 hd)⟩

theorem Course.keeps_setup (h : Course l events l') (hl : l.Lived log) :
    Keeps (fun before occasion => occasion.isWork = false → InOrder (log ++ before) occasion)
      events := by
  have hwork {session : List (Event ι ο)} (log : List (Event ι ο)) (hs : Bracketed session) :
      Keeps (fun before occasion => occasion.isWork = false → InOrder (log ++ before) occasion)
        session := by
    intro before occasion key after heq hnot
    rw [hs.isWork (heq ▸ List.mem_append_cons_self)] at hnot
    cases hnot
  have hsetups (hnot : ¬ SetUp log) (result : Except String Unit) :
      Keeps (fun before occasion => occasion.isWork = false → InOrder (log ++ before) occasion)
        (setups result) := by
    apply keeps_setups
    intro _
    rw [List.append_nil]
    exact hnot
  cases h with
  | idle => exact keeps_nil
  | refused cause => exact hsetups hl.1 _
  | setUp work =>
    refine keeps_append.2 ⟨hsetups hl.1 _, ?_⟩
    cases work with
    | inl hnil =>
      rw [hnil]
      exact keeps_nil
    | inr work =>
      intro before occasion key after heq hnot
      rw [← List.append_assoc]
      exact hwork _ work before occasion key after heq hnot
  | work _ work => exact hwork _ work

theorem Course.keeps_inOrder_iff (h : Course l events l') (hl : l.Lived log) :
    Keeps (fun before => InOrder (log ++ before)) events ↔ (l = tornDown → events = []) := by
  have hsetups (hnot : ¬ SetUp log) (result : Except String Unit) :
      Keeps (fun before => InOrder (log ++ before)) (setups result) := by
    apply keeps_setups
    rw [List.append_nil]
    exact hnot
  cases h with
  | idle => exact iff_of_true keeps_nil fun _ => rfl
  | refused cause => exact iff_of_true (hsetups hl.1 _) fun h => by cases h
  | setUp work =>
    refine iff_of_true (keeps_append.2 ⟨hsetups hl.1 _, ?_⟩) fun h => by cases h
    obtain ⟨hsetup, hdown⟩ := lived_setups log (.ok ())
    cases work with
    | inl hnil =>
      rw [hnil]
      exact keeps_nil
    | inr work =>
      have hkeeps := (work.keeps_inOrder_iff (log ++ setups (.ok ()))).2
        ⟨hsetup.2 (Or.inr rfl), fun h => hl.2 (hdown.1 h)⟩
      simpa only [List.append_assoc] using hkeeps
  | work ready work =>
    rw [work.keeps_inOrder_iff]
    cases l with
    | created => exact absurd rfl ready
    | active => exact iff_of_true hl fun h => by cases h
    | tornDown =>
      refine iff_of_false hl fun h => ?_
      obtain ⟨key, rest, hstarts⟩ := work.starts
      rw [h rfl] at hstarts
      cases hstarts

end Lifecycle

namespace Runner

open Event
open Lifecycle (Lived Course)

variable {o : Operator μ ι ο}

theorem setup_recorded_of_created {r : Runner μ ι ο ρ σ} (h : r.lifecycle = .created)
    (log : List (Event ι ο)) :
    ∃ result : Except String Unit, (r.recorded log).setup =
        (r.setup.1, r.setup.2.recorded (log ++ setups result)) ∧
      (result = .ok () ∧ r.setup.1 = .ok () ∧ r.setup.2.lifecycle = .active ∨
        ∃ cause, result = .error cause ∧ r.setup.1 = .error (.user .setup cause) ∧
          r.setup.2.lifecycle = .created) := by
  refine ⟨(r.operator.function.setup r.memory).result, ?_⟩
  rcases hs : r.operator.function.setup r.memory with ⟨cause | _, memory⟩ <;>
    simp [setup, recorded, Operator.recorded, UserFunction.recorded, Outcome.recorded, h, hs, setups]

theorem course_of_setup (r : Runner μ ι ο ρ σ) {session events : List (Event ι ο)}
    (hsession : session = [] ∨ Bracketed session)
    (hevents : events =
      match r.setup.1 with
      | .ok _ => (r.recorded []).setup.2.memory.2 ++ session
      | .error _ => (r.recorded []).setup.2.memory.2) :
    Course r.lifecycle events r.setup.2.lifecycle ∧
      (r.lifecycle = .tornDown → events = session) := by
  by_cases hcreated : r.lifecycle = .created
  · obtain ⟨result, hrecorded, hresult⟩ := setup_recorded_of_created hcreated []
    rw [hrecorded] at hevents
    refine ⟨?_, fun h => by rw [h] at hcreated; cases hcreated⟩
    rcases hresult with ⟨rfl, hsetup, hlifecycle⟩ | ⟨cause, rfl, hsetup, hlifecycle⟩
    · rw [hsetup] at hevents
      rw [hevents, hcreated, hlifecycle]
      exact .setUp hsession
    · rw [hsetup] at hevents
      rw [hevents, hcreated, hlifecycle]
      exact .refused cause
  · have hrecorded : (r.recorded []).setup = (.ok (), r.recorded []) :=
      setup_eq_of_ne_created hcreated
    rw [setup_eq_of_ne_created hcreated, hrecorded] at hevents
    have hevents : events = session := hevents
    rw [setup_eq_of_ne_created hcreated, hevents]
    refine ⟨?_, fun _ => rfl⟩
    cases hsession with
    | inl hnil =>
      rw [hnil]
      exact .idle _
    | inr hwork => exact .work hcreated hwork

variable [SideInputReader ρ] [StateStore σ]

theorem ends_bundleSession_bracketed (r : Runner μ ι ο ρ σ) (log₀ : List (Event ι ο))
    (elements : List (Element ι)) (memory : μ) :
    ((r.recorded log₀).bundleSession elements).Ends (memory, [])
      (fun _ memory' => Bracketed memory'.2) fun memory' => Bracketed memory'.2 := by
  refine .bind (Context.ends_callback_start _ _ _ _ memory) fun s (memory, log) h => ?_
  have hpiece (key : Option EncodedKey) (piece : Element ι) (s : Staging ι ο)
      (memory : μ × List (Event ι ο)) (h : Underway memory.2) :
      ((r.recorded log₀).processPiece key s piece).Ends memory
        (fun _ memory' => Underway memory'.2) fun memory' => Bracketed memory'.2 :=
    Context.ends_callback_inner _ _ rfl _ s memory.1 h
  refine .bind ((r.recorded log₀).ends_elements hpiece (fun _ _ _ h => h)
    (fun _ _ h => h.toBracketed) elements h) fun s (memory, log) h => ?_
  exact Context.ends_callback_finish _ _ _ s memory h

theorem ends_fireRounds_underway (r : Runner μ ι ο ρ σ) (log₀ : List (Event ι ο))
    (input : Instant) (fuel : Nat) (due : List FiredTimer) (schedule : Schedule) (s : Staging ι ο)
    (memory : μ) {log : List (Event ι ο)} (h : Underway log) :
    ((r.recorded log₀).fireRounds input fuel due schedule s).Ends (memory, log)
      (fun _ memory' => Underway memory'.2) fun memory' => Bracketed memory'.2 := by
  have hfire (schedule : Schedule) (fired : FiredTimer) (s : Staging ι ο)
      (memory : μ × List (Event ι ο)) (h : Underway memory.2) :
      ((r.recorded log₀).fireTimer input schedule s fired).EndsWith memory
        (fun _ memory' => Underway memory'.2) fun _ memory' => Bracketed memory'.2 :=
    Session.ends_iff_endsWith.1 (Context.ends_callback_inner _ _ rfl _ s memory.1 h)
  exact Session.ends_iff_endsWith.2 ((r.recorded log₀).endsWith_fireRounds input hfire
    (fun _ _ _ _ h => h) (fun _ _ _ h => h.toBracketed) fuel due schedule h)

theorem ends_passSession_bracketed (r : Runner μ ι ο ρ σ) (log₀ : List (Event ι ο))
    (input : Instant) (due : List FiredTimer) (schedule : Schedule) (memory : μ) :
    ((r.recorded log₀).passSession input due schedule).Ends (memory, [])
      (fun _ memory' => Bracketed memory'.2) fun memory' => Bracketed memory'.2 := by
  refine .bind (Context.ends_callback_start _ _ _ _ memory) fun s (memory, log) h => ?_
  refine .bind (r.ends_fireRounds_underway log₀ input _ due schedule s memory h) ?_
  rintro ⟨schedule, s⟩ ⟨memory, log⟩ h
  refine .bind (Context.ends_callback_finish _ _ _ s memory h) fun s (memory, log) h => ?_
  refine (ends_applyStaged _ _ _).mono ?_ ?_
  · rintro _ _ ⟨rfl, -⟩
    exact h
  · rintro _ rfl
    exact h

theorem exists_bracketed {α : Type} {x : Session (μ × List (Event ι ο)) α} {y : Session μ α}
    (hx : x.Records y) (memory : μ)
    (h : x.Ends (memory, []) (fun _ memory' => Bracketed memory'.2)
      fun memory' => Bracketed memory'.2) :
    ∃ session, Bracketed session ∧ ∀ log, (x.run (memory, log)).2.2 = log ++ session := by
  obtain ⟨session, hrun⟩ := hx memory
  have hbracketed := h.always
  rw [hrun] at hbracketed
  exact ⟨session, hbracketed, fun log => by rw [hrun]⟩

theorem firePass_bracketed (r : Runner μ ι ο ρ σ) (input : Instant) :
    ∃ session, (session = [] ∧ (r.schedule.popDue input).1 = [] ∨
        Bracketed session ∧ (r.schedule.popDue input).1 ≠ []) ∧
      ∀ log, ((r.recorded log).firePass input).2.memory.2 = log ++ session := by
  obtain ⟨session, hrecorded⟩ := r.records_firePass input
  have hsession : ((r.recorded []).firePass input).2.memory.2 = session := by
    have h := hrecorded []
    dsimp only at h
    rw [h]
    rfl
  refine ⟨session, ?_, fun log => by have h := hrecorded log; dsimp only at h; rw [h]; rfl⟩
  have hschedule : (r.recorded []).schedule = r.schedule := rfl
  rw [firePass, hschedule] at hsession
  rcases hdue : r.schedule.popDue input with ⟨_ | ⟨fired, due⟩, schedule⟩ <;> rw [hdue] at hsession
  · exact Or.inl ⟨hsession.symm, rfl⟩
  · refine Or.inr ⟨?_, List.cons_ne_nil _ _⟩
    rw [← hsession]
    exact (r.ends_passSession_bracketed [] input (fired :: due) schedule r.memory).always

theorem course_of_commitBundle (r : Runner μ ι ο ρ σ) (elements : List (Element ι)) :
    Course r.lifecycle ((r.recorded []).commitBundle elements).2.memory.2
        (r.commitBundle elements).2.lifecycle ∧
      (r.lifecycle = .tornDown → ((r.recorded []).commitBundle elements).2.memory.2 ≠ []) := by
  obtain ⟨session, hwork, hsession⟩ := exists_bracketed (r.records_bundleSession [] elements)
    (r.recorded []).setup.2.memory.1 (r.ends_bundleSession_bracketed [] elements _)
  obtain ⟨log, hsetup, -⟩ := r.setup_recorded
  have hresult : (r.recorded []).setup.1 = r.setup.1 := by rw [hsetup]
  have hevents : ((r.recorded []).commitBundle elements).2.memory.2 =
      match r.setup.1 with
      | .ok _ => (r.recorded []).setup.2.memory.2 ++ session
      | .error _ => (r.recorded []).setup.2.memory.2 := by
    rw [memory_commitBundle, hresult]
    cases r.setup.1 with
    | error e => rfl
    | ok _ => exact hsession _
  obtain ⟨hcourse, hdown⟩ := r.course_of_setup (Or.inr hwork) hevents
  rw [lifecycle_commitBundle]
  exact ⟨hcourse, fun h => hdown h ▸ hwork.ne_nil⟩

theorem course_of_processWatermark (r : Runner μ ι ο ρ σ) (time : Instant) :
    Course r.lifecycle (r.events (.watermark time)) (r.processWatermark time).2.lifecycle ∧
      (r.lifecycle = .tornDown →
        (r.events (.watermark time) = [] ↔ ¬ r.Opens (.watermark time))) := by
  obtain ⟨log, hsetup, -⟩ := r.setup_recorded
  obtain ⟨session, hwork, hsession⟩ := r.setup.2.firePass_bracketed time
  have hwatermark : (r.recorded []).watermark = r.watermark := rfl
  have hlog : (r.recorded []).setup.2.memory.2 = log := by rw [hsetup]; rfl
  rw [schedule_setup] at hwork
  have hevents : r.events (.watermark time) =
      match r.setup.1 with
      | .ok _ => (r.recorded []).setup.2.memory.2 ++
          if time < r.watermark.input then [] else session
      | .error _ => (r.recorded []).setup.2.memory.2 := by
    show ((r.recorded []).processWatermark time).2.memory.2 = _
    rw [memory_processWatermark, hlog, hsetup, hwatermark]
    cases r.setup.1 with
    | error e => rfl
    | ok _ =>
      dsimp only
      split
      · rw [List.append_nil]
        rfl
      · exact hsession log
  rw [lifecycle_processWatermark]
  by_cases hbehind : time < r.watermark.input
  · rw [if_pos hbehind] at hevents
    obtain ⟨hcourse, hdown⟩ := r.course_of_setup (Or.inl rfl) hevents
    exact ⟨hcourse, fun h => iff_of_true (hdown h) fun hopens => not_le.2 hbehind hopens.1⟩
  · rw [if_neg hbehind] at hevents
    obtain ⟨hcourse, hdown⟩ := r.course_of_setup (hwork.imp And.left And.left) hevents
    refine ⟨hcourse, fun h => ?_⟩
    rw [hdown h]
    cases hwork with
    | inl hnone => exact iff_of_true hnone.1 fun hopens => hopens.2 hnone.2
    | inr hwork => exact iff_of_false hwork.1.ne_nil (not_not.2 ⟨not_lt.1 hbehind, hwork.2⟩)

theorem course_of_endsAlike {r r₀ : Runner μ ι ο ρ σ} {c : Call ι} {elements : List (Element ι)}
    (hlifecycle : r₀.lifecycle = r.lifecycle)
    (h : EndsAlike (r.call c) (r₀.commitBundle elements))
    (hrecorded : EndsAlike ((r.recorded []).call c) ((r₀.recorded []).commitBundle elements)) :
    Course r.lifecycle (r.events c) (r.call c).2.lifecycle ∧
      (r.lifecycle = .tornDown → r.events c ≠ []) := by
  have hevents : r.events c = _ := congrArg Prod.snd hrecorded.memory
  rw [hevents, h.lifecycle, ← hlifecycle]
  exact r₀.course_of_commitBundle elements

theorem course_of_sideInput (r : Runner μ ι ο ρ σ) (index : Nat)
    (message : StreamMessage SideValue) :
    Course r.lifecycle (r.events (.sideInput index message))
        (r.call (.sideInput index message)).2.lifecycle ∧
      (r.lifecycle = .tornDown →
        (r.events (.sideInput index message) = [] ↔ ¬ r.Opens (.sideInput index message))) := by
  rcases r.sideInput_cases index message with ⟨hidle, -, hlifecycle⟩ | ⟨hopens, hends⟩ <;>
    rcases (r.recorded []).sideInput_cases index message with
      ⟨hidle', hmemory, -⟩ | ⟨hopens', hends'⟩
  · have hevents : r.events (.sideInput index message) = [] := congrArg Prod.snd hmemory
    rw [hevents, hlifecycle]
    exact ⟨.idle _, fun _ => iff_of_true rfl hidle⟩
  · exact absurd hopens' hidle
  · exact absurd hopens hidle'
  · rw [received_recorded] at hends'
    obtain ⟨hcourse, hdown⟩ := course_of_endsAlike (r.lifecycle_received _) hends hends'
    exact ⟨hcourse, fun h => iff_of_false (hdown h) (not_not.2 hopens)⟩

/-- Every call but tearing down takes one of the courses; on a runner that is torn down it calls the
function exactly if it opens a bundle or a pass. -/
theorem course_of_call (r : Runner μ ι ο ρ σ) {c : Call ι} (hc : c ≠ .teardown) :
    Course r.lifecycle (r.events c) (r.call c).2.lifecycle ∧
      (r.lifecycle = .tornDown → (r.events c = [] ↔ ¬ r.Opens c)) := by
  cases c with
  | setup =>
    have hevents : r.events .setup =
        match r.setup.1 with
        | .ok _ => (r.recorded []).setup.2.memory.2 ++ []
        | .error _ => (r.recorded []).setup.2.memory.2 := by
      rw [List.append_nil]
      cases r.setup.1 <;> rfl
    obtain ⟨hcourse, hdown⟩ := r.course_of_setup (Or.inl rfl) hevents
    exact ⟨hcourse, fun h => iff_of_true (hdown h) fun hopens => hopens⟩
  | bundle elements =>
    obtain ⟨hcourse, hdown⟩ := course_of_endsAlike rfl (r.endsAlike_bundle elements)
      ((r.recorded []).endsAlike_bundle elements)
    exact ⟨hcourse, fun h => iff_of_false (hdown h) (not_not.2 trivial)⟩
  | sideInput index message => exact r.course_of_sideInput index message
  | watermark time => exact r.course_of_processWatermark time
  | teardown => exact absurd rfl hc

theorem events_teardown (r : Runner μ ι ο ρ σ) :
    r.lifecycle = .active ∧ (∃ result, r.events .teardown =
        [called .teardown none, ended result]) ∨
      r.lifecycle ≠ .active ∧ r.events .teardown = [] := by
  by_cases h : r.lifecycle = .active
  · refine Or.inl ⟨h, (r.operator.function.teardown r.memory).result, ?_⟩
    rcases hs : r.operator.function.teardown r.memory with ⟨_ | _, memory⟩ <;>
      simp [events, call, teardown, recorded, Operator.recorded, UserFunction.recorded,
        Outcome.recorded, h, hs]
  · exact Or.inr ⟨h, by simp [events, call, teardown, recorded, h]⟩

theorem lifecycle_teardown (r : Runner μ ι ο ρ σ) :
    (r.call .teardown).2.lifecycle = .tornDown := by
  show r.teardown.2.lifecycle = _
  unfold teardown
  dsimp only
  split
  · split <;> rfl
  · rfl

theorem order_of_teardown (r : Runner μ ι ο ρ σ) {log : List (Event ι ο)}
    (hl : r.lifecycle.Lived log) :
    (r.call .teardown).2.lifecycle.Lived (log ++ r.events .teardown) ∧
      Keeps (fun before => InOrder (log ++ before)) (r.events .teardown) := by
  rw [lifecycle_teardown]
  rcases r.events_teardown with ⟨hactive, result, hevents⟩ | ⟨hinactive, hevents⟩ <;> rw [hevents]
  · rw [hactive] at hl
    refine ⟨fun h => h.2 (tornDown_append.2 (Or.inr ⟨none, List.mem_cons_self⟩)), ?_⟩
    have hnone : ∀ e ∈ [(ended result : Event ι ο)], e.isCall = false := by simp [isCall]
    rw [keeps_cons_called hnone, List.append_nil]
    exact hl
  · rw [List.append_nil]
    refine ⟨fun h => ?_, keeps_nil⟩
    cases hlifecycle : r.lifecycle with
    | active => exact hinactive hlifecycle
    | created =>
      rw [hlifecycle] at hl
      exact hl.1 h.1
    | tornDown =>
      rw [hlifecycle] at hl
      exact hl h

theorem order_of_call (r : Runner μ ι ο ρ σ) {log : List (Event ι ο)}
    (hl : r.lifecycle.Lived log) (c : Call ι) :
    (r.call c).2.lifecycle.Lived (log ++ r.events c) ∧
      Keeps (fun before occasion => occasion.isWork = false → InOrder (log ++ before) occasion)
        (r.events c) ∧
      (Keeps (fun before => InOrder (log ++ before)) (r.events c) ↔
        (r.lifecycle = .tornDown → ¬ r.Opens c)) := by
  by_cases hc : c = .teardown
  · rw [hc]
    obtain ⟨hlived, hkeeps⟩ := r.order_of_teardown hl
    exact ⟨hlived, fun before occasion key after heq _ => hkeeps before occasion key after heq,
      iff_of_true hkeeps fun _ hopens => hopens⟩
  · obtain ⟨hcourse, hdown⟩ := r.course_of_call hc
    refine ⟨hcourse.lived hl, hcourse.keeps_setup hl, (hcourse.keeps_inOrder_iff hl).trans ?_⟩
    exact forall_congr' hdown

theorem order_of_calls (r : Runner μ ι ο ρ σ) {log : List (Event ι ο)}
    (hl : r.lifecycle.Lived log) (cs : List (Call ι)) :
    (r.calls cs).2.lifecycle.Lived (log ++ r.eventsOf cs) ∧
      Keeps (fun before occasion => occasion.isWork = false → InOrder (log ++ before) occasion)
        (r.eventsOf cs) ∧
      (Keeps (fun before => InOrder (log ++ before)) (r.eventsOf cs) ↔
        ∀ done c rest, cs = done ++ c :: rest →
          (r.calls done).2.lifecycle = .tornDown → ¬ (r.calls done).2.Opens c) := by
  induction cs generalizing r log with
  | nil =>
    rw [eventsOf, List.append_nil]
    refine ⟨hl, keeps_nil, iff_of_true keeps_nil fun done c rest h => ?_⟩
    simp at h
  | cons c cs ih =>
    obtain ⟨hlived, hsetup, hwork⟩ := r.order_of_call hl c
    obtain ⟨hlived', hsetup', hwork'⟩ := ih (r.call c).2 hlived
    simp only [List.append_assoc] at hlived' hsetup' hwork'
    rw [eventsOf, keeps_append, keeps_append, hwork, hwork']
    refine ⟨hlived', ⟨hsetup, hsetup'⟩, ?_⟩
    constructor
    · intro h done c' rest heq
      cases done with
      | nil =>
        cases heq
        exact h.1
      | cons d done =>
        cases heq
        exact h.2 done c' rest rfl
    · intro h
      exact ⟨h [] c cs rfl, fun done c' rest heq => h (c :: done) c' rest (by rw [heq]; rfl)⟩

/-- The events of calls and of the end of the runner. -/
def trace (r : Runner μ ι ο ρ σ) (cs : List (Call ι)) : List (Event ι ο) :=
  ((r.recorded []).calls cs).2.drop.memory.2

theorem trace_eq (r : Runner μ ι ο ρ σ) (cs : List (Call ι)) :
    r.trace cs = r.eventsOf cs ++ (r.calls cs).2.events .teardown := by
  have hdrop : r.trace cs = (((r.recorded []).calls cs).2.call .teardown).2.memory.2 := rfl
  rw [hdrop, calls_recorded, call_recorded]
  rfl

theorem lifecycle_call (r : Runner μ ι ο ρ σ) (c : Call ι) :
    (r.call c).2.lifecycle = .tornDown ↔ r.lifecycle = .tornDown ∨ c = .teardown := by
  by_cases hc : c = .teardown
  · rw [hc, lifecycle_teardown]
    exact iff_of_true rfl (Or.inr rfl)
  · obtain ⟨hcourse, -⟩ := r.course_of_call hc
    rw [or_iff_left hc]
    generalize r.lifecycle = l, (r.call c).2.lifecycle = l', r.events c = events at hcourse
    cases hcourse with
    | idle => exact Iff.rfl
    | refused cause => exact Iff.rfl
    | setUp work => exact iff_of_false (by intro h; cases h) (by intro h; cases h)
    | work ready work => exact Iff.rfl

theorem lifecycle_calls (r : Runner μ ι ο ρ σ) (cs : List (Call ι)) :
    (r.calls cs).2.lifecycle = .tornDown ↔ r.lifecycle = .tornDown ∨ .teardown ∈ cs := by
  induction cs generalizing r with
  | nil => simp [calls]
  | cons c cs ih =>
    have hcalls : (r.calls (c :: cs)).2 = ((r.call c).2.calls cs).2 := rfl
    rw [hcalls, ih, lifecycle_call, List.mem_cons, or_assoc, eq_comm (a := Call.teardown)]

theorem exists_session (r : Runner μ ι ο ρ σ) (c : Call ι) :
    ∃ prologue session, r.events c = prologue ++ session ∧
      (∀ e ∈ prologue, e.isWork = false) ∧ (session = [] ∨ Bracketed session) := by
  by_cases hc : c = .teardown
  · refine ⟨r.events c, [], (List.append_nil _).symm, ?_, Or.inl rfl⟩
    rcases r.events_teardown with ⟨-, result, hevents⟩ | ⟨-, hevents⟩ <;> rw [hc, hevents] <;>
      simp [isWork, Occasion.isWork]
  · have hsetups (result : Except String Unit) :
        ∀ e ∈ (setups result : List (Event ι ο)), e.isWork = false := by
      simp [setups, isWork, Occasion.isWork]
    obtain ⟨hcourse, -⟩ := r.course_of_call hc
    generalize r.lifecycle = l, (r.call c).2.lifecycle = l', r.events c = events at hcourse ⊢
    cases hcourse with
    | idle => exact ⟨[], [], rfl, by simp, Or.inl rfl⟩
    | refused cause => exact ⟨_, [], (List.append_nil _).symm, hsetups _, Or.inl rfl⟩
    | setUp work => exact ⟨_, _, rfl, hsetups _, work⟩
    | work ready work => exact ⟨[], _, rfl, by simp, Or.inr work⟩

/-- For every run of a new runner, to its end: the function is set up once, and torn down once after
that; the work of each call has its start first and its finish last; and all of the work is between
setting up and tearing down exactly if no call after the runner was torn down opens a bundle or a
pass. -/
theorem order_of_run {r : Runner μ ι ο ρ σ} {reader : ρ} {store : Option σ} {memory : μ}
    (h : o.runner reader store memory = .ok r) (cs : List (Call ι)) :
    Keeps (fun before occasion => occasion.isWork = false → InOrder before occasion) (r.trace cs) ∧
      (∀ done c rest, cs = done ++ c :: rest →
        ∃ prologue session, (r.calls done).2.events c = prologue ++ session ∧
          (∀ e ∈ prologue, e.isWork = false) ∧ (session = [] ∨ Bracketed session)) ∧
      (Keeps InOrder (r.trace cs) ↔
        ∀ done c rest, cs = done ++ c :: rest → .teardown ∈ done →
          ¬ (r.calls done).2.Opens c) := by
  have hfresh := lifecycle_fresh h
  have hlived : r.lifecycle.Lived ([] : List (Event ι ο)) := by
    rw [hfresh]
    exact Lifecycle.lived_nil
  obtain ⟨hend, hsetup, hwork⟩ := r.order_of_calls hlived cs
  obtain ⟨-, hdown⟩ := (r.calls cs).2.order_of_teardown hend
  simp only [List.nil_append] at hsetup hwork hdown
  rw [trace_eq, keeps_append, keeps_append]
  refine ⟨⟨hsetup, fun before occasion key after heq _ => hdown before occasion key after heq⟩,
    fun done c _ _ => (r.calls done).2.exists_session c, ?_⟩
  rw [and_iff_left hdown]
  refine hwork.trans ?_
  simp only [lifecycle_calls, hfresh, reduceCtorEq, false_or]

/-- A runner that was torn down starts a bundle on the function that it tore down, and also on one
that it never set up. -/
theorem echo_started_after_teardown :
    ¬ Keeps InOrder (echoStart.trace [.setup, .teardown, .bundle []]) ∧
      ¬ Keeps InOrder (echoStart.trace [.teardown, .bundle []]) := by
  have hdown : echoStart.trace [.setup, .teardown, .bundle []] =
      [called .setup none, ended (.ok ()), called .teardown none, ended (.ok ())] ++
        called .startBundle none ::
          [ended (.ok ()), called .finishBundle none, ended (.ok ())] := by rfl
  have hnever : echoStart.trace [.teardown, .bundle []] =
      [] ++ called .startBundle none ::
        [ended (.ok ()), called .finishBundle none, ended (.ok ())] := by rfl
  constructor
  · intro h
    exact (h _ _ _ _ hdown).2 ⟨none, by simp⟩
  · intro h
    have hsetup : SetUp [] := (h _ _ _ _ hnever).1
    cases hsetup.subset List.mem_cons_self

theorem echo_in_order :
    Keeps InOrder (echoStart.trace
      [.bundle [.inGlobalWindow 1 ⟨10⟩], .watermark ⟨100⟩, .teardown, .teardown]) := by
  have hfresh : echo.runner SideInputs.empty none () = .ok echoStart := by rfl
  obtain ⟨-, -, hwork⟩ := order_of_run hfresh
    [.bundle [.inGlobalWindow 1 ⟨10⟩], .watermark ⟨100⟩, .teardown, .teardown]
  refine hwork.2 fun done c rest heq hdone => ?_
  rcases done with _ | ⟨d₁, _ | ⟨d₂, _ | ⟨d₃, _ | ⟨d₄, done⟩⟩⟩⟩ <;> simp at heq hdone
  · simp [← heq.1] at hdone
  · simp [← heq.1, ← heq.2.1] at hdone
  · rw [← heq.2.2.2.1]
    exact fun hopens => hopens

end Runner

end StreamOperator
