import StreamOperator.Proofs.Runner.Turns
import StreamOperator.Proofs.Runner.Waiting

/-! What a function finds beside its elements. Readiness is decided for each window of an element
before it is processed, and a lookup picks the window again from the element at hand. With the
handler of the runner itself both come to the same entry, so a lookup finds all that has arrived
there, and no less than one value. -/

namespace StreamOperator

variable {μ ι ο ρ σ : Type}

namespace Turn

variable [SideInputReader ρ] [StateStore σ]

structure LooksUp (f : UserFunction μ ι ο) (t : Turn μ ι ο ρ σ) (index : Nat)
    (values : List SideValue) : Prop where
  answer : ∀ s : Staging ι ο, (t.context.answer s (.sideValues index)).1 = .ok values
  asked : ∀ reply, .asked (.sideValues index) reply ∈ t.asked f → reply = .ok values

theorem looksUp_of_answer {f : UserFunction μ ι ο} {t : Turn μ ι ο ρ σ} {index : Nat}
    {values : List SideValue}
    (h : ∀ s : Staging ι ο, (t.context.answer s (.sideValues index)).1 = .ok values) :
    t.LooksUp f index values := by
  refine ⟨h, fun reply hasked => ?_⟩
  obtain ⟨done, rest, hevents⟩ := List.append_of_mem hasked
  rw [Context.reply_of_events hevents]
  exact h _

end Turn

namespace Runner

def sideCalls (views : List View) (cs : List (Call ι)) : List SideCall :=
  SideCall.ofArrivals views (arrivals cs)

section Reader

variable [SideInputReader ρ] {r : Runner μ ι ο ρ σ} {t : Turn μ ι ο ρ σ} {piece : Element ι}

theorem Surrounds.answer_sideValues [StateStore σ] (h : r.Surrounds t)
    (hoccasion : t.occasion = .element piece) {w : Window} (hw : piece.windows = [w]) {index : Nat}
    {view : View} (hview : r.operator.views[index]? = some view) (s : Staging ι ο) :
    (t.context.answer s (.sideValues index)).1 =
      .ok (SideInputReader.values r.reader view w) := by
  have hviews : t.context.views = r.operator.views := by rw [h.context]; rfl
  have hreader : t.context.reader = r.reader := by rw [h.context]; rfl
  have hwindow : t.context.window? = some w := by
    rw [h.context, hoccasion]
    simp only [Context.window?, Occasion.frame?, Element.frame, Element.withValue, hw]
  simp only [Context.answer, hviews, hview, hreader, hwindow, Option.getD_some]

variable [StateStore σ]

theorem isReady_of_handed {c : Call ι} (hviews : r.operator.views ≠ [])
    (hwindows : piece.windows ≠ []) (h : piece ∈ Event.handed (r.events c)) :
    ∃ w, piece.windows = [w] ∧ ∀ view ∈ r.operator.views,
      SideInputReader.isReady (r.received c).reader view w = true := by
  obtain ⟨e, -, hready⟩ := List.mem_flatMap.1 ((r.handed_events c).subset h)
  rw [split, operator_received] at hready
  exact ReadySplit.isReady_of_mem_ready hviews hwindows hready

end Reader

variable [StateStore σ]

theorem reader_received_calls {o : Operator μ ι ο} {store : Option σ} {memory : μ}
    {r : Runner μ ι ο DefaultReader σ} (hviews : o.views ≠ [])
    (h : o.runner (.forViews o.views) store memory = .ok r) (cs : List (Call ι)) (c : Call ι) :
    ((r.calls cs).2.received c).reader =
      .materialized (.ofCalls (sideCalls o.views (cs ++ [c]))) := by
  have hsound := sound_fresh h
  have harrivals : arrivals (cs ++ [c]) = arrivals cs ++ c.arrival?.toList := by
    rw [arrivals, List.filterMap_append]
    cases hc : c.arrival? <;> simp [arrivals, hc]
  rw [reader_received, (hsound.calls cs).operator, hsound.reader_calls, reader_fresh h,
    ← List.foldl_append, ← harrivals, DefaultReader.forViews_of_ne_nil hviews,
    DefaultReader.receive_materialized, SideInputs.receive_empty, sideCalls]

/-- A handler finds for a view what calls have brought in the window that serves it, and is ready
when and as long as it finds something. Over such a handler, whenever a function processes an
element that stands in a window, it finds at least one value for each view. -/
theorem side_values_of_calls :
    (∀ (cs : List SideCall) (view : View) (w : Window),
      (SideInputs.ofCalls cs).values view w = SideCall.history (view.sideKey w) cs ∧
      ((SideInputs.ofCalls cs).isReady view w = true ↔
        (SideInputs.ofCalls cs).values view w ≠ []) ∧
      ∀ ds, (SideInputs.ofCalls cs).isReady view w = true →
        (SideInputs.ofCalls (cs ++ ds)).isReady view w = true) ∧
    ∀ {o : Operator μ ι ο} {store : Option σ} {memory : μ} {r : Runner μ ι ο DefaultReader σ},
      o.runner (.forViews o.views) store memory = .ok r → ∀ (cs : List (Call ι)) (c : Call ι),
        ∃ turns, ((r.calls cs).2.received c).Tells turns ((r.calls cs).2.events c) ∧
          ∀ t ∈ turns, ∀ piece, t.occasion = .element piece → piece.windows ≠ [] →
            ∀ index view, o.views[index]? = some view →
              ∃ w, piece.windows = [w] ∧
                SideCall.history (view.sideKey w) (sideCalls o.views (cs ++ [c])) ≠ [] ∧
                t.LooksUp o.function index
                  (SideCall.history (view.sideKey w) (sideCalls o.views (cs ++ [c]))) := by
  constructor
  · intro cs view w
    exact ⟨SideInputs.values_ofCalls cs, SideInputs.filled_ofCalls cs view w,
      fun ds h => SideInputs.isReady_ofCalls_append h ds⟩
  · intro o store memory r hr cs c
    have hsound := (sound_fresh hr).calls cs
    have hoperator : ((r.calls cs).2.received c).operator = o :=
      ((r.calls cs).2.operator_received c).trans hsound.operator
    obtain ⟨turns, htells, -⟩ := hsound.exists_turns c
    refine ⟨turns, htells, ?_⟩
    intro t ht piece hoccasion hwindows index view hview
    have hmem : view ∈ o.views := List.mem_of_getElem? hview
    have hviews : o.views ≠ [] := List.ne_nil_of_mem hmem
    have hreader := reader_received_calls hviews hr cs c
    have hhanded := htells.mem_handed_iff.2 ⟨t, ht, hoccasion⟩
    rw [← hsound.operator] at hviews hmem
    obtain ⟨w, hw, hready⟩ := isReady_of_handed hviews hwindows hhanded
    have hviewReady := hready view hmem
    rw [hreader] at hviewReady
    refine ⟨w, hw, (SideInputs.isReady_ofCalls _).1 hviewReady, ?_⟩
    refine Turn.looksUp_of_answer fun s => ?_
    rw [← hoperator] at hview
    rw [(htells.surrounds t ht).answer_sideValues hoccasion hw hview s, hreader]
    exact congrArg Except.ok (SideInputs.values_ofCalls _)

def glance : Operator Unit Nat Nat where
  function := {
    processElement := fun _ m =>
      .ask (.sideValues 0) fun _ => .ask (.sideValues 1) fun _ => .done (.success m) }
  views := [⟨"rates", .sameWindow⟩, ⟨"rates", .global⟩]

def glanceStart : Runner Unit Nat Nat DefaultReader Cells where
  operator := glance
  outputs := ⟨"main", []⟩
  reader := .forViews glance.views
  pushback := .empty
  watermark := .start true
  schedule := .empty
  store := none
  lifecycle := .created
  memory := ()

theorem side_values_of_glance :
    let early := Window.interval ⟨0⟩ ⟨50⟩
    let late := Window.interval ⟨50⟩ ⟨100⟩
    let rate : Call Nat := .sideInput 1 (.data ⟨.integer 7, ⟨0⟩, [early, early, .global], .noFiring⟩)
    let element : Call Nat := .bundle [⟨1, ⟨10⟩, [early, late], .noFiring⟩]
    ∃ turns, ((glanceStart.calls [rate]).2.received element).Tells turns
        ((glanceStart.calls [rate]).2.events element) ∧
      ∃ t ∈ turns, t.occasion = .element ⟨1, ⟨10⟩, [early], .noFiring⟩ ∧
        t.LooksUp glance.function 0 [.integer 7, .integer 7] ∧
        t.LooksUp glance.function 1 [.integer 7] := by
  intro early late rate element
  have hfresh : glance.runner (.forViews glance.views) none () = .ok glanceStart := by rfl
  obtain ⟨turns, htells, hfinds⟩ := side_values_of_calls.2 hfresh [rate] element
  have hhanded : Event.handed ((glanceStart.calls [rate]).2.events element) =
      [⟨1, ⟨10⟩, [early], .noFiring⟩] := by
    decide +kernel
  have hpiece : ⟨1, ⟨10⟩, [early], .noFiring⟩ ∈
      Event.handed ((glanceStart.calls [rate]).2.events element) :=
    hhanded ▸ List.mem_singleton_self _
  obtain ⟨t, ht, hoccasion⟩ := htells.mem_handed_iff.1 hpiece
  refine ⟨turns, htells, t, ht, hoccasion, ?_, ?_⟩
  · obtain ⟨w, hw, -, hvalues⟩ := hfinds t ht _ hoccasion (List.cons_ne_nil _ _) 0 _ rfl
    cases hw
    exact hvalues
  · obtain ⟨w, hw, -, hvalues⟩ := hfinds t ht _ hoccasion (List.cons_ne_nil _ _) 1 _ rfl
    cases hw
    exact hvalues

end Runner

end StreamOperator
