import StreamOperator.Proofs.Runner.Calls
import StreamOperator.Proofs.Watermark.Tracker

/-! What holds of every runner that calls lead to from one that was just built, and the induction
over calls that carries it. -/

namespace StreamOperator.Runner

variable {μ ι ο ρ σ : Type} {o : Operator μ ι ο} {r r' : Runner μ ι ο ρ σ}

structure Sound (o : Operator μ ι ο) (r : Runner μ ι ο ρ σ) : Prop where
  operator : r.operator = o
  /-- The least timestamp is kept up to date. -/
  buffered : r.pushback = .ofList r.pushback.elements
  single : ∀ e ∈ r.pushback.elements, ∃ w, e.windows = [w]
  sides : r.watermark.hasSideInputs = !o.views.isEmpty
  output_le : r.watermark.output ≤ r.watermark.input
  /-- Without views nothing is ever held back. -/
  unheld : o.views = [] → r.pushback.elements = [] ∧ r.watermark.output = r.watermark.input
  scheduled : r.schedule.Consistent

theorem fresh_eq {reader : ρ} {store : Option σ} {memory : μ}
    (h : o.runner reader store memory = .ok r) :
    r.operator = o ∧ r.pushback = .empty ∧ r.watermark = .start (!o.views.isEmpty) ∧
      r.schedule = .empty := by
  unfold Operator.runner at h
  split at h
  · cases h
  · split at h <;> cases h
    exact ⟨rfl, rfl, rfl, rfl⟩

theorem lifecycle_fresh {reader : ρ} {store : Option σ} {memory : μ}
    (h : o.runner reader store memory = .ok r) : r.lifecycle = .created := by
  unfold Operator.runner at h
  split at h
  · cases h
  · split at h <;> cases h
    rfl

theorem sound_fresh {reader : ρ} {store : Option σ} {memory : μ}
    (h : o.runner reader store memory = .ok r) : Sound o r := by
  obtain ⟨hoperator, hpushback, hwatermark, hschedule⟩ := fresh_eq h
  have hempty : (PushbackBuffer.empty : PushbackBuffer ι).elements = [] := rfl
  refine ⟨hoperator, ?_, ?_, ?_, ?_, ?_, ?_⟩
  · rw [hpushback]
    rfl
  · simp [hpushback, hempty]
  · rw [hwatermark]
    rfl
  · rw [hwatermark]
    exact le_refl _
  · intro _
    rw [hpushback, hwatermark]
    exact ⟨rfl, rfl⟩
  · rw [hschedule]
    exact Schedule.consistent_empty

/-- Passes values on, each once a side input has a value for its window. -/
def echo : Operator Unit Nat Nat where
  function := { processElement := fun e m => .ask (.output e.value) fun _ => .done (.success m) }
  views := [⟨"side", .sameWindow⟩]

def echoStart : Runner Unit Nat Nat SideInputs Cells where
  operator := echo
  outputs := ⟨"main", []⟩
  reader := .empty
  pushback := .empty
  watermark := .start true
  schedule := .empty
  store := none
  lifecycle := .created
  memory := ()

theorem Sound.congr (hr : Sound o r) (hoperator : r'.operator = r.operator)
    (hpushback : r'.pushback = r.pushback) (hwatermark : r'.watermark = r.watermark)
    (hscheduled : r'.schedule.Consistent) : Sound o r' := by
  refine ⟨hoperator.trans hr.operator, ?_, ?_, ?_, ?_, ?_, hscheduled⟩
  · rw [hpushback]
    exact hr.buffered
  · rw [hpushback]
    exact hr.single
  · rw [hwatermark]
    exact hr.sides
  · rw [hwatermark]
    exact hr.output_le
  · rw [hpushback, hwatermark]
    exact hr.unheld

theorem Sound.raise (hr : Sound o r) {input : Instant} (h : r.watermark.input ≤ input)
    (hold : Instant) :
    Sound o { r with watermark := ({ r.watermark with input }.raise hold).2 } := by
  have hle : r.watermark.output ≤ input := le_trans hr.output_le h
  refine ⟨hr.operator, hr.buffered, hr.single, ?_, ?_, ?_, hr.scheduled⟩
  · simp only [WatermarkTracker.hasSideInputs_raise]
    exact hr.sides
  · simp only [WatermarkTracker.input_raise]
    exact WatermarkTracker.output_raise_le hle
  · intro hviews
    simp only [WatermarkTracker.input_raise]
    refine ⟨(hr.unheld hviews).1, WatermarkTracker.output_raise_of_no_side_inputs ?_ hle⟩
    rw [hr.sides, hviews]
    rfl

theorem Sound.materialize [SideInputReader ρ] (hr : Sound o r) (view : View)
    (value : Element SideValue) : Sound o (r.materialize view value) :=
  hr.congr rfl rfl rfl hr.scheduled

variable [SideInputReader ρ] [StateStore σ]

theorem Sound.committed {elements : List (Element ι)} {s : Staging ι ο} {events : List (Event ι ο)}
    (hr : Sound o r) (h : Committed r elements s events r') (kept : List (Element ι))
    (hkept : ∀ e ∈ kept, e ∈ r.pushback.elements) :
    Sound o { r' with pushback := .ofList (kept ++ s.pushedBack) } := by
  have hscheduled := hr.scheduled.applyOps h.schedule
  rw [h.frame]
  refine ⟨hr.operator, rfl, ?_, hr.sides, hr.output_le, ?_, hscheduled⟩
  · intro e he
    rcases List.mem_append.1 he with he | he
    · exact hr.single e (hkept e he)
    · rw [h.pushedBack, List.mem_flatMap] at he
      obtain ⟨e', -, he⟩ := he
      exact ReadySplit.windows_of_mem_pushedBack he
  · intro hviews
    have hback (e : Element ι) : (r.split e).pushedBack = [] :=
      ReadySplit.pushedBack_of_no_views (by rw [hr.operator, hviews])
    have hkept' : kept = [] := by
      apply List.eq_nil_iff_forall_not_mem.2
      intro e he
      have hmem := hkept e he
      rw [(hr.unheld hviews).1] at hmem
      cases hmem
    refine ⟨?_, (hr.unheld hviews).2⟩
    rw [PushbackBuffer.elements_ofList, hkept', h.pushedBack]
    simp [hback]

theorem Sound.succeeded {c : Call ι} {result : CallResult ι ο} {events : List (Event ι ο)}
    (hr : Sound o r) (h : Succeeded r c result events r') : Sound o r' := by
  cases h with
  | bracket => exact hr.congr rfl rfl rfl hr.scheduled
  | bundle committed =>
    rw [hr.buffered, PushbackBuffer.extend_ofList]
    exact hr.committed committed _ fun e he => he
  | ignored => exact hr
  | arrived => exact (hr.materialize _ _).raise (le_refl _) _
  | replayed declared committed =>
    exact ((hr.materialize _ _).committed committed [] (by simp)).raise (le_refl _) _
  | passed passed =>
    obtain ⟨hle, hw⟩ := WatermarkTracker.advance_eq_ok passed.advance
    have hwatermark := congrArg Prod.snd hw
    refine (hr.raise hle r.pushback.minTimestamp).congr ?_ ?_ hwatermark passed.consistent
    · rw [passed.frame]
    · rw [passed.frame]

theorem Sound.kept_of_call_error {c : Call ι} {e : ExecutionError} (hr : Sound o r)
    (h : r.call c = (.error e, r')) :
    r'.operator = r.operator ∧ r'.pushback = r.pushback ∧ r'.watermark = r.watermark ∧
      r'.schedule = r.schedule := by
  by_cases hc : c = .teardown
  · subst hc
    have hr' : r.teardown.2 = r' := congrArg Prod.snd h
    rw [← hr', teardown_frame]
    exact ⟨rfl, rfl, rfl, rfl⟩
  · have hmoved := call_error hr.buffered hc h
    rw [hmoved.operator, hmoved.pushback, hmoved.watermark, hmoved.schedule, received_frame]
    exact ⟨rfl, rfl, rfl, rfl⟩

theorem Sound.call (hr : Sound o r) (c : Call ι) : Sound o (r.call c).2 := by
  rcases hc : r.call c with ⟨e | result, r'⟩
  · obtain ⟨hoperator, hpushback, hwatermark, hschedule⟩ := hr.kept_of_call_error hc
    exact hr.congr hoperator hpushback hwatermark (hschedule ▸ hr.scheduled)
  · exact hr.succeeded (call_ok hr.scheduled hc)

theorem Sound.calls (hr : Sound o r) (cs : List (Call ι)) : Sound o (r.calls cs).2 := by
  induction cs generalizing r with
  | nil => exact hr
  | cons c cs ih => exact ih (hr.call c)

theorem calls_concat (r : Runner μ ι ο ρ σ) (cs : List (Call ι)) (c : Call ι) :
    r.calls (cs ++ [c]) =
      ((r.calls cs).1 ++ [((r.calls cs).2.call c).1], ((r.calls cs).2.call c).2) := by
  rw [calls_append]
  rfl

end StreamOperator.Runner
