import StreamOperator.Proofs.Runner.Conservation
import StreamOperator.Proofs.Runner.Markers

/-! Elements that are not late. While the elements of bundles come in at or above the output
watermark of the time, nothing that waits and nothing that the function is handed lies below a
watermark that was emitted; so what the function emits for an element, at the time of the element,
is not late either. -/

namespace StreamOperator

def Call.isAhead {ι : Type} (w : Instant) : Call ι → Bool
  | .bundle elements => elements.all (w ≤ ·.timestamp)
  | _ => true

namespace Outputs

variable {β : Type}

def elements (o : Outputs β) : List (Element β) := o.mainData ++ o.side.flatMap (·.2)

@[simp] theorem elements_empty (t : OutputTable) : (empty t : Outputs β).elements = [] := by
  simp [elements, empty, mainData]

@[simp] theorem elements_pushWatermark? (o : Outputs β) (t? : Option Instant) :
    (o.pushWatermark? t?).elements = o.elements := by
  cases t? with
  | none => rfl
  | some t =>
    show (o.pushWatermark t).mainData ++ o.side.flatMap (·.2) = _
    rw [mainData_pushWatermark]
    rfl

theorem mem_onChannel {channel : Channel} {emitted : List (Channel × Element β)} {e : Element β} :
    e ∈ onChannel channel emitted ↔ (channel, e) ∈ emitted := by
  simp [onChannel]

theorem exists_of_mem_elements_ofEmissions {t : OutputTable} {emitted : List (Channel × Element β)}
    {e : Element β} (h : e ∈ (ofEmissions t emitted).elements) :
    ∃ channel, (channel, e) ∈ emitted := by
  rcases List.mem_append.1 h with h | h
  · rw [mainData_ofEmissions] at h
    exact ⟨.main, mem_onChannel.1 h⟩
  · obtain ⟨side, hside, he⟩ := List.mem_flatMap.1 h
    obtain ⟨index, hindex, rfl⟩ := List.mem_mapIdx.1 hside
    exact ⟨.side index, mem_onChannel.1 he⟩

end Outputs

namespace Runner

variable {μ ι ο ρ σ : Type} {o : Operator μ ι ο} {r r' : Runner μ ι ο ρ σ}
  [SideInputReader ρ] [StateStore σ]

/-- Whether the elements of each bundle of a run are at or above the output watermark as it
comes in. -/
def takesAhead (r : Runner μ ι ο ρ σ) : List (Call ι) → Bool
  | [] => true
  | c :: cs => c.isAhead r.outputWatermark && (r.call c).2.takesAhead cs

def Ahead (r : Runner μ ι ο ρ σ) : Prop :=
  ∀ e ∈ r.pushback.elements, r.outputWatermark ≤ e.timestamp

theorem le_of_mem_takenBy {c : Call ι} {w : Instant} (hc : c.isAhead w = true) {e : Element ι}
    (he : e ∈ r.takenBy c) : w ≤ e.timestamp := by
  unfold takenBy at he
  split at he
  · exact of_decide_eq_true (List.all_eq_true.1 hc e he)
  · cases he

theorem mem_pushback_call (hr : Sound o r) {c : Call ι} {p : Element ι}
    (hp : p ∈ (r.call c).2.pushback.elements) :
    p ∈ r.pushback.elements ∨ ∃ e ∈ r.takenBy c, p ∈ e.pieces o.views := by
  have hmem := (handedBy_append_pushback_perm hr c).subset (List.mem_append_right _ hp)
  rwa [List.mem_append, List.mem_flatMap] at hmem

theorem Ahead.call (hr : Sound o r) (h : Ahead r) {c : Call ι}
    (hc : c.isAhead r.outputWatermark = true) : Ahead (r.call c).2 := by
  have hstays : ∀ p ∈ (r.call c).2.pushback.elements, r.outputWatermark ≤ p.timestamp := by
    intro p hp
    rcases mem_pushback_call hr hp with hp | ⟨e, he, hp⟩
    · exact h p hp
    · rw [Element.timestamp_of_mem_pieces hp]
      exact le_of_mem_takenBy hc he
  rcases hcall : r.call c with ⟨e | result, r'⟩ <;> rw [hcall] at hstays
  · obtain ⟨-, -, hwatermark, -⟩ := hr.kept_of_call_error hcall
    rw [Ahead, outputWatermark, hwatermark]
    exact hstays
  · have htold := hr.told hcall
    cases hm : result.outputWatermark with
    | none =>
      rw [Ahead, outputWatermark, htold.stays hm]
      exact hstays
    | some t =>
      obtain ⟨-, hout, hle⟩ := htold.rises t hm
      rw [Ahead, outputWatermark, hout]
      exact hle

theorem Ahead.calls (hr : Sound o r) (h : Ahead r) {cs : List (Call ι)}
    (hcs : r.takesAhead cs = true) : Ahead (r.calls cs).2 := by
  induction cs generalizing r with
  | nil => exact h
  | cons c cs ih =>
    obtain ⟨hc, hcs⟩ := Bool.and_eq_true_iff.1 hcs
    exact ih (hr.call c) (h.call hr hc) hcs

theorem Ahead.le_of_handed (h : Ahead r) {c : Call ι}
    (hc : c.isAhead r.outputWatermark = true) {p : Element ι}
    (hp : p ∈ Event.handed (r.events c)) : r.outputWatermark ≤ p.timestamp := by
  obtain ⟨e, he, hready⟩ := List.mem_flatMap.1 ((r.handed_events c).subset hp)
  have hpiece : p ∈ e.pieces (r.received c).operator.views :=
    (ReadySplit.ready_append_pushedBack_perm e _ _).subset (List.mem_append_left _ hready)
  rw [Element.timestamp_of_mem_pieces hpiece]
  unfold offered at he
  split at he
  · exact of_decide_eq_true (List.all_eq_true.1 hc e he)
  · exact h e he
  · cases he

theorem timestamp_of_mem_outputs (hr : Sound o r) {c : Call ι} (hc : ∀ time, c ≠ .watermark time)
    {result : CallResult ι ο} (h : r.call c = (.ok result, r')) {e : Element ο}
    (he : e ∈ result.outputs.elements) :
    e.timestamp ∈ (Event.handed (r.events c)).map Element.timestamp ∨
      e.timestamp ∈ (r.events c).filterMap Event.chosenTime? := by
  have hsucceeded := call_ok hr.scheduled h
  have hdates {t : OutputTable} {s : Staging ι ο} {events : List (Event ι ο)}
      (hdates : Event.Dates events s.emitted)
      (he : e ∈ (Outputs.ofEmissions t s.outputs).elements) :
      e.timestamp ∈ (Event.handed events).map Element.timestamp ∨
        e.timestamp ∈ events.filterMap Event.chosenTime? := by
    obtain ⟨channel, hmem⟩ := Outputs.exists_of_mem_elements_ofEmissions he
    exact hdates (channel, e) (List.mem_reverse.1 hmem)
  generalize r.events c = events at hsucceeded ⊢
  cases hsucceeded with
  | bracket => simp [emptyResult] at he
  | bundle committed eq =>
    rw [eq] at he
    exact hdates committed.dates he
  | ignored => simp [emptyResult] at he
  | arrived =>
    have hnone : e ∈ (r.emptyResult.outputs.pushWatermark? _).elements := he
    simp [emptyResult] at hnone
  | replayed declared committed outputs =>
    have hresult : e ∈ (Outputs.pushWatermark? _ _).elements := he
    rw [Outputs.elements_pushWatermark?, outputs] at hresult
    exact hdates committed.dates hresult
  | passed => exact absurd rfl (hc _)

/-- While every bundle comes in at or above the output watermark: what waits is not below it, no
call hands the function an element below a watermark emitted before, whether it succeeds or not,
and what a bundle or a replay emits is below none of these watermarks, save at times that the
function chose. -/
theorem not_late_of_calls {reader : ρ} {store : Option σ} {memory : μ}
    (h : o.runner reader store memory = .ok r) {cs : List (Call ι)} (hcs : r.takesAhead cs = true) :
    (∀ e ∈ (r.calls cs).2.pushback.elements, (r.calls cs).2.outputWatermark ≤ e.timestamp) ∧
      ∀ c : Call ι, c.isAhead (r.calls cs).2.outputWatermark = true →
        (∀ p ∈ Event.handed ((r.calls cs).2.events c), ∀ t ∈ markers (r.calls cs).1,
          t ≤ p.timestamp) ∧
        ∀ result r', (r.calls cs).2.call c = (.ok result, r') → (∀ time, c ≠ .watermark time) →
          ∀ e ∈ result.outputs.elements,
            e.timestamp ∈ ((r.calls cs).2.events c).filterMap Event.chosenTime? ∨
              ∀ t ∈ markers (r.calls cs).1, t ≤ e.timestamp := by
  have hstart : r.watermark.output = .negInf := by
    rw [(fresh_eq h).2.2.1]
    rfl
  have hfresh : Ahead r := by
    intro e he
    rw [(fresh_eq h).2.1] at he
    cases he
  have hr := (sound_fresh h).calls cs
  have hahead := hfresh.calls (sound_fresh h) hcs
  have hmarkers := (rising_calls (sound_fresh h) hstart cs).le
  refine ⟨hahead, fun c hc => ?_⟩
  have hhanded : ∀ p ∈ Event.handed ((r.calls cs).2.events c), ∀ t ∈ markers (r.calls cs).1,
      t ≤ p.timestamp :=
    fun p hp t ht => le_trans (hmarkers t ht) (hahead.le_of_handed hc hp)
  refine ⟨hhanded, fun result r' hcall hpass e he => ?_⟩
  rcases timestamp_of_mem_outputs hr hpass hcall he with htime | hchosen
  · obtain ⟨p, hp, htime⟩ := List.mem_map.1 htime
    exact Or.inr fun t ht => htime ▸ hhanded p hp t ht
  · exact Or.inl hchosen

theorem not_late_of_echo :
    markers (echoStart.calls (echoCalls.take 3)).1 = [⟨10⟩] ∧
      Event.handed ((echoStart.calls (echoCalls.take 3)).2.events (echoCalls.getLastD .setup)) =
        [.inGlobalWindow 1 ⟨10⟩] ∧
      ∀ t ∈ markers (echoStart.calls (echoCalls.take 3)).1, t ≤ ⟨10⟩ := by
  have hfresh : echo.runner SideInputs.empty none () = .ok echoStart := by rfl
  have hahead : echoStart.takesAhead (echoCalls.take 3) = true := by decide +kernel
  have hhanded : Event.handed ((echoStart.calls (echoCalls.take 3)).2.events
      (echoCalls.getLastD .setup)) = [.inGlobalWindow 1 ⟨10⟩] := by decide +kernel
  obtain ⟨-, hnext⟩ := not_late_of_calls hfresh hahead
  obtain ⟨hnotLate, -⟩ := hnext (echoCalls.getLastD .setup) (by decide +kernel)
  refine ⟨by decide +kernel, hhanded, hnotLate (.inGlobalWindow 1 ⟨10⟩) ?_⟩
  rw [hhanded]
  exact List.mem_singleton_self _

end Runner

end StreamOperator
