import StreamOperator.Proofs.Runner.Conservation
import StreamOperator.Proofs.SideInput

/-! What waits, and what does not. While no arrival of a side-input value fails, the buffer is what
is not ready of all that was taken in, in the order in which it was taken in; so neither the order
of the arrivals nor their place among the bundles shows in the end. -/

namespace StreamOperator

def Call.arrival? {ι : Type} : Call ι → Option (Nat × Element SideValue)
  | .sideInput index (.data value) => some (index, value)
  | _ => none

def Call.isSideInput {ι : Type} : Call ι → Bool
  | .sideInput .. => true
  | _ => false

/-- The values that calls bring for side inputs, with the numbers of these. -/
def arrivals {ι : Type} (cs : List (Call ι)) : List (Nat × Element SideValue) :=
  cs.filterMap Call.arrival?

theorem Element.waits_of_materialize {α ρ : Type} [SideInputReader ρ]
    (hlast : SideInputReader.Lasting ρ) {views : List View} {reader : ρ} {u : View}
    {value : Element SideValue} {p : Element α}
    (h : p.waits views (SideInputReader.materialize reader u value) = true) :
    p.waits views reader = true := by
  simp only [waits, List.any_eq_true] at h ⊢
  obtain ⟨w, hw, v, hv, hunready⟩ := h
  refine ⟨w, hw, v, hv, ?_⟩
  rw [Bool.not_eq_true'] at hunready ⊢
  by_contra hready
  rw [Bool.not_eq_false] at hready
  rw [hlast reader u v value w hready] at hunready
  cases hunready

namespace Runner

variable {μ ι ο ρ σ : Type} {o : Operator μ ι ο} {r : Runner μ ι ο ρ σ}

theorem reader_fresh {reader : ρ} {store : Option σ} {memory : μ}
    (h : o.runner reader store memory = .ok r) : r.reader = reader := by
  unfold Operator.runner at h
  split at h
  · cases h
  · split at h <;> cases h
    rfl

variable [SideInputReader ρ]

theorem reader_received (r : Runner μ ι ο ρ σ) (c : Call ι) :
    (r.received c).reader =
      c.arrival?.toList.foldl (SideInputReader.receive r.operator.views) r.reader := by
  unfold received
  split
  next index value =>
    simp only [Call.arrival?, Option.toList_some, List.foldl_cons, List.foldl_nil,
      SideInputReader.receive]
    cases r.operator.views[index]? <;> rfl
  next h =>
    have hnone : c.arrival? = none := by
      cases c with
      | sideInput index message =>
        cases message with
        | data value => exact absurd rfl (h index value)
        | watermark => rfl
      | _ => rfl
    rw [hnone]
    rfl

theorem flatMap_pushedBack_split (hr : r.operator = o) (elements : List (Element ι)) :
    elements.flatMap (fun e => (r.split e).pushedBack) =
      (elements.flatMap (Element.pieces o.views)).filter (Element.waits o.views r.reader) := by
  rw [List.filter_flatMap, ← hr]
  exact List.flatMap_congr fun e _ => ReadySplit.pushedBack_ofElement e _ _

variable [StateStore σ]

theorem Sound.reader_call (hr : Sound o r) (c : Call ι) :
    (r.call c).2.reader = (r.received c).reader := by
  rcases hc : r.call c with ⟨e | result, r'⟩
  · by_cases hdown : c = .teardown
    · subst hdown
      have hr' : r.teardown.2 = r' := congrArg Prod.snd hc
      rw [← hr', teardown_frame]
      rfl
    · exact (call_error hr.buffered hdown hc).reader
  · have hevents := call_ok hr.scheduled hc
    generalize r.events c = events at hevents
    cases hevents with
    | bracket kind => rcases kind with rfl | rfl <;> rfl
    | bundle committed =>
      rw [committed.frame]
      rfl
    | ignored => rfl
    | arrived declared =>
      simp only [received, declared]
      rfl
    | replayed declared committed =>
      simp only [received, declared]
      show Runner.reader _ = _
      rw [releaseWatermark, committed.frame]
    | passed passed =>
      rw [passed.frame]
      rfl

theorem Sound.reader_calls (hr : Sound o r) (cs : List (Call ι)) :
    (r.calls cs).2.reader = (arrivals cs).foldl (SideInputReader.receive o.views) r.reader := by
  induction cs generalizing r with
  | nil => rfl
  | cons c cs ih =>
    have hlast : (r.calls (c :: cs)).2 = ((r.call c).2.calls cs).2 := rfl
    have harrivals : arrivals (c :: cs) = c.arrival?.toList ++ arrivals cs := by
      unfold arrivals
      cases hc : c.arrival? <;> simp [hc]
    rw [hlast, ih (hr.call c), hr.reader_call, reader_received, hr.operator, harrivals,
      List.foldl_append]

def sideInputsSucceed (r : Runner μ ι ο ρ σ) : List (Call ι) → Bool
  | [] => true
  | c :: cs => (!c.isSideInput || (r.call c).1.isOk) && (r.call c).2.sideInputsSucceed cs

theorem Sound.pushback_call (hr : Sound o r) (hlast : SideInputReader.Lasting ρ) {c : Call ι}
    (hc : (!c.isSideInput || (r.call c).1.isOk) = true) {pieces : List (Element ι)}
    (h : r.pushback.elements = pieces.filter (Element.waits o.views r.reader)) :
    (r.call c).2.pushback.elements =
      (pieces ++ (r.takenBy c).flatMap (Element.pieces o.views)).filter
        (Element.waits o.views (r.call c).2.reader) := by
  -- A piece that did not wait before a value arrived does not wait after it.
  have harrival (view : View) (value : Element SideValue) :
      r.pushback.elements.filter
          (Element.waits o.views (SideInputReader.materialize r.reader view value)) =
        pieces.filter (Element.waits o.views (SideInputReader.materialize r.reader view value)) := by
    rw [h, List.filter_filter]
    refine List.filter_congr fun p _ => ?_
    cases hp : p.waits o.views (SideInputReader.materialize r.reader view value) with
    | false => rfl
    | true => rw [Element.waits_of_materialize hlast hp, Bool.and_self]
  unfold takenBy
  have hreader := hr.reader_call c
  rcases hcall : r.call c with ⟨e | result, r'⟩ <;> rw [hcall] at hreader hc <;>
    dsimp only at hreader ⊢
  · have hkept : (r.received c).reader = r.reader := by
      cases c with
      | sideInput => cases hc
      | _ => rfl
    rw [hreader, hkept, (hr.kept_of_call_error hcall).2.1, h]
    cases c <;> simp
  · have hevents := call_ok hr.scheduled hcall
    generalize r.events c = events at hevents
    cases hevents with
    | bracket kind =>
      rw [h]
      rcases kind with rfl | rfl <;> simp
    | @bundle elements s events result r' committed =>
      have hkept : r'.reader = r.reader := by rw [committed.frame]
      rw [PushbackBuffer.elements_extend, committed.pushedBack, flatMap_pushedBack_split hr.operator,
        h, List.filter_append, hkept]
    | ignored =>
      rw [h]
      simp
    | @arrived index view value declared idle =>
      have hempty := harrival view value
      rw [idle, List.filter_nil] at hempty
      show r.pushback.elements = (pieces ++ []).filter _
      rw [idle, List.append_nil]
      exact hempty
    | @replayed index view value s events r' result declared committed outputs =>
      have hkept : r'.reader = SideInputReader.materialize r.reader view value := by
        rw [committed.frame]
        rfl
      show s.pushedBack = (pieces ++ []).filter (Element.waits o.views r'.reader)
      rw [committed.pushedBack, flatMap_pushedBack_split (hr.materialize view value).operator,
        hr.flatMap_pieces, List.append_nil, hkept]
      exact harrival view value
    | passed passed =>
      rw [passed.frame, h]
      simp

theorem Sound.pushback_calls (hr : Sound o r) (hlast : SideInputReader.Lasting ρ)
    {pieces : List (Element ι)}
    (h : r.pushback.elements = pieces.filter (Element.waits o.views r.reader))
    {cs : List (Call ι)} (hcs : r.sideInputsSucceed cs = true) :
    (r.calls cs).2.pushback.elements =
      (pieces ++ (r.accepted cs).flatMap (Element.pieces o.views)).filter
        (Element.waits o.views (r.calls cs).2.reader) := by
  induction cs generalizing r pieces with
  | nil =>
    rw [accepted, List.flatMap_nil, List.append_nil]
    exact h
  | cons c cs ih =>
    obtain ⟨hc, hcs⟩ := Bool.and_eq_true_iff.1 hcs
    have hrest := ih (hr.call c) (hr.pushback_call hlast hc h) hcs
    rw [accepted, List.flatMap_append, ← List.append_assoc]
    exact hrest

theorem pushback_eq_filter_waits (hlast : SideInputReader.Lasting ρ) {reader : ρ}
    {store : Option σ} {memory : μ} (h : o.runner reader store memory = .ok r)
    {cs : List (Call ι)} (hcs : r.sideInputsSucceed cs = true) :
    (r.calls cs).2.pushback.elements =
      ((r.accepted cs).flatMap (Element.pieces o.views)).filter
        (Element.waits o.views (r.calls cs).2.reader) := by
  have hempty : r.pushback.elements = [].filter (Element.waits o.views r.reader) := by
    rw [(fresh_eq h).2.1]
    rfl
  exact (sound_fresh h).pushback_calls hlast hempty hcs

theorem processed_perm_filter_not_waits (hlast : SideInputReader.Lasting ρ) {reader : ρ}
    {store : Option σ} {memory : μ} (h : o.runner reader store memory = .ok r)
    {cs : List (Call ι)} (hcs : r.sideInputsSucceed cs = true) :
    (r.processed cs).Perm
      (((r.accepted cs).flatMap (Element.pieces o.views)).filter
        fun p => !p.waits o.views (r.calls cs).2.reader) := by
  have hperm := processed_append_pushback_perm (sound_fresh h) cs
  rw [pushback_eq_filter_waits hlast h hcs, (fresh_eq h).2.1] at hperm
  have hsplit := List.filter_append_perm (Element.waits o.views (r.calls cs).2.reader)
    ((r.accepted cs).flatMap (Element.pieces o.views))
  refine (List.perm_append_right_iff _).1 (hperm.trans ?_)
  exact hsplit.symm.trans List.perm_append_comm

variable {μ' ο' σ' : Type} [StateStore σ']

theorem waits_eq_of_arrivals_perm {o' : Operator μ' ι ο'} {store : Option σ} {store' : Option σ'}
    {memory : μ} {memory' : μ'} {r : Runner μ ι ο DefaultReader σ}
    {r' : Runner μ' ι ο' DefaultReader σ'} (hviews : o.views ≠ []) (hsame : o'.views = o.views)
    (h : o.runner (.forViews o.views) store memory = .ok r)
    (h' : o'.runner (.forViews o'.views) store' memory' = .ok r') {cs ds : List (Call ι)}
    (harrivals : (arrivals ds).Perm (arrivals cs)) :
    Element.waits (α := ι) o.views (r'.calls ds).2.reader =
      Element.waits o.views (r.calls cs).2.reader := by
  have hready := DefaultReader.isReady_receive_perm o.views harrivals .empty
  rw [(sound_fresh h').reader_calls, (sound_fresh h).reader_calls, reader_fresh h', reader_fresh h,
    hsame, DefaultReader.forViews_of_ne_nil hviews]
  funext p
  simp only [Element.waits, hready]

/-- Over the default reader, and while no call on a side input fails: the buffer is the list of the
pieces taken in that wait for a view, and the others have been processed. Both depend only on the
elements taken in and on the values that arrived, whatever the function, the bundles and the order
in which the values came among them. -/
theorem waiting_of_calls {store : Option σ} {memory : μ} {r : Runner μ ι ο DefaultReader σ}
    (hviews : o.views ≠ []) (h : o.runner (.forViews o.views) store memory = .ok r)
    {cs : List (Call ι)} (hcs : r.sideInputsSucceed cs = true) :
    (r.calls cs).2.pushback.elements =
        ((r.accepted cs).flatMap (Element.pieces o.views)).filter
          (Element.waits o.views (r.calls cs).2.reader) ∧
      (r.processed cs).Perm
        (((r.accepted cs).flatMap (Element.pieces o.views)).filter
          fun p => !p.waits o.views (r.calls cs).2.reader) ∧
      ∀ {μ' ο' σ' : Type} [StateStore σ'] {o' : Operator μ' ι ο'} {store' : Option σ'}
        {memory' : μ'} {r' : Runner μ' ι ο' DefaultReader σ'} {ds : List (Call ι)},
        o'.views = o.views → o'.runner (.forViews o'.views) store' memory' = .ok r' →
        r'.sideInputsSucceed ds = true → r'.accepted ds = r.accepted cs →
        (arrivals ds).Perm (arrivals cs) →
        (r'.calls ds).2.pushback.elements = (r.calls cs).2.pushback.elements ∧
          (r'.processed ds).Perm (r.processed cs) := by
  have hbuffer := pushback_eq_filter_waits DefaultReader.lasting h hcs
  have hprocessed := processed_perm_filter_not_waits DefaultReader.lasting h hcs
  refine ⟨hbuffer, hprocessed, ?_⟩
  intro μ' ο' σ' _ o' store' memory' r' ds hsame h' hds haccepted harrivals
  have hbuffer' := pushback_eq_filter_waits DefaultReader.lasting h' hds
  have hprocessed' := processed_perm_filter_not_waits DefaultReader.lasting h' hds
  have hwaits := waits_eq_of_arrivals_perm hviews hsame h h' harrivals
  rw [hsame, haccepted] at hbuffer' hprocessed'
  rw [hwaits] at hbuffer'
  simp only [hwaits] at hprocessed'
  exact ⟨hbuffer'.trans hbuffer.symm, hprocessed'.trans hprocessed.symm⟩

def echoDefault : Runner Unit Nat Nat DefaultReader Cells :=
  { echoStart with reader := .forViews echo.views }

theorem waiting_of_echo :
    let early := Window.interval ⟨0⟩ ⟨50⟩
    let late := Window.interval ⟨50⟩ ⟨100⟩
    let element : Call Nat := .bundle [⟨1, ⟨10⟩, [early, late], .noFiring⟩]
    let value : Call Nat := .sideInput 0 (.data ⟨.integer 7, ⟨0⟩, [early], .noFiring⟩)
    (echoDefault.calls [element, value]).2.pushback.elements = [⟨1, ⟨10⟩, [late], .noFiring⟩] ∧
      (echoDefault.calls [value, element]).2.pushback.elements =
        (echoDefault.calls [element, value]).2.pushback.elements ∧
      (echoDefault.processed [value, element]).Perm (echoDefault.processed [element, value]) := by
  have hfresh : echo.runner (.forViews echo.views) none () = .ok echoDefault := by rfl
  intro early late element value
  have hafter : echoDefault.sideInputsSucceed [element, value] = true := by decide +kernel
  have hbefore : echoDefault.sideInputsSucceed [value, element] = true := by decide +kernel
  obtain ⟨-, -, hsame⟩ := waiting_of_calls (by decide) hfresh hafter
  obtain ⟨hbuffer, hprocessed⟩ := hsame rfl hfresh hbefore (by decide +kernel) (.refl _)
  exact ⟨by decide +kernel, hbuffer, hprocessed⟩

end Runner

end StreamOperator
