import StreamOperator.Proofs.Runner.Sound

/-! No piece of an element is lost, and none is processed twice. What the function was handed by
calls that succeeded, together with what waits in the buffer, is a rearrangement of the pieces of
the elements that were taken in. -/

namespace StreamOperator.Runner

variable {μ ι ο ρ σ : Type} {o : Operator μ ι ο} {r : Runner μ ι ο ρ σ}

theorem Sound.flatMap_pieces (hr : Sound o r) :
    r.pushback.elements.flatMap (Element.pieces o.views) = r.pushback.elements := by
  have hpieces : ∀ e ∈ r.pushback.elements, e.pieces o.views = [e] := by
    intro e he
    obtain ⟨w, hw⟩ := hr.single e he
    exact Element.pieces_of_windows_eq hw
  rw [List.flatMap_congr hpieces]
  exact List.flatMap_singleton' _

variable [SideInputReader ρ]

theorem flatMap_split_perm (hr : r.operator = o) (elements : List (Element ι)) :
    (elements.flatMap (fun e => (r.split e).ready) ++
      elements.flatMap fun e => (r.split e).pushedBack).Perm
        (elements.flatMap (Element.pieces o.views)) := by
  refine (List.flatMap_append_perm _ _ _).trans ?_
  apply List.Perm.flatMap_left
  intro e _
  rw [← hr]
  exact ReadySplit.ready_append_pushedBack_perm e _ _

variable [StateStore σ]

def handedBy (r : Runner μ ι ο ρ σ) (c : Call ι) : List (Element ι) :=
  match (r.call c).1 with
  | .ok _ => Event.handed (r.events c)
  | .error _ => []

def takenBy (r : Runner μ ι ο ρ σ) (c : Call ι) : List (Element ι) :=
  match c, (r.call c).1 with
  | .bundle elements, .ok _ => elements
  | _, _ => []

/-- What the function was handed in the calls of a run that succeeded. -/
def processed (r : Runner μ ι ο ρ σ) : List (Call ι) → List (Element ι)
  | [] => []
  | c :: cs => r.handedBy c ++ (r.call c).2.processed cs

/-- The elements of the bundles of a run that succeeded. -/
def accepted (r : Runner μ ι ο ρ σ) : List (Call ι) → List (Element ι)
  | [] => []
  | c :: cs => r.takenBy c ++ (r.call c).2.accepted cs

theorem handedBy_append_pushback_perm (hr : Sound o r) (c : Call ι) :
    (r.handedBy c ++ (r.call c).2.pushback.elements).Perm
      (r.pushback.elements ++ (r.takenBy c).flatMap (Element.pieces o.views)) := by
  unfold handedBy takenBy
  rcases hc : r.call c with ⟨e | result, r'⟩ <;> dsimp only
  · rw [(hr.kept_of_call_error hc).2.1]
    simp
  · have hevents := call_ok hr.scheduled hc
    generalize r.events c = events at hevents ⊢
    -- Bundles and replays move pieces; no other call hands the function an element.
    cases hevents with
    | bracket kind handed =>
      rw [handed]
      rcases kind with rfl | rfl <;> simp
    | @bundle elements s events result r' committed =>
      rw [committed.handed, PushbackBuffer.elements_extend, committed.pushedBack]
      refine (List.perm_append_comm_assoc _ _ _).trans ?_
      exact (flatMap_split_perm hr.operator elements).append_left _
    | ignored => simp
    | arrived => simp; rfl
    | @replayed index view value s events r' result declared committed outputs =>
      rw [committed.handed]
      show (_ ++ s.pushedBack).Perm _
      rw [committed.pushedBack, List.flatMap_nil, List.append_nil]
      refine (flatMap_split_perm (hr.materialize view value).operator _).trans ?_
      rw [hr.flatMap_pieces]
    | passed passed =>
      rw [passed.handed, passed.frame]
      simp

theorem processed_append_pushback_perm (hr : Sound o r) (cs : List (Call ι)) :
    (r.processed cs ++ (r.calls cs).2.pushback.elements).Perm
      (r.pushback.elements ++ (r.accepted cs).flatMap (Element.pieces o.views)) := by
  induction cs generalizing r with
  | nil => simp [processed, accepted, calls]
  | cons c cs ih =>
    have hstep := handedBy_append_pushback_perm hr c
    have hrest := ih (hr.call c)
    have hlast : (r.calls (c :: cs)).2 = ((r.call c).2.calls cs).2 := rfl
    simp only [processed, accepted, List.flatMap_append, List.append_assoc, hlast]
    refine (hrest.append_left _).trans ?_
    simp only [← List.append_assoc]
    exact hstep.append_right _

/-- Whatever calls are made, and however they end: the pieces handed to the function by calls that
succeeded and those in the buffer are, together, the pieces of the elements of the bundles that
succeeded, each as often. -/
theorem pieces_conserved {reader : ρ} {store : Option σ} {memory : μ}
    (h : o.runner reader store memory = .ok r) (cs : List (Call ι)) :
    (r.processed cs ++ (r.calls cs).2.pushback.elements).Perm
      ((r.accepted cs).flatMap (Element.pieces o.views)) := by
  have hperm := processed_append_pushback_perm (sound_fresh h) cs
  rw [(fresh_eq h).2.1] at hperm
  exact hperm

theorem pieces_conserved_of_echo :
    let early := Window.interval ⟨0⟩ ⟨50⟩
    let late := Window.interval ⟨50⟩ ⟨100⟩
    let cs : List (Call Nat) := [.bundle [⟨1, ⟨10⟩, [early, late], .noFiring⟩],
      .sideInput 0 (.data ⟨.integer 7, ⟨0⟩, [early], .noFiring⟩)]
    echoStart.processed cs = [⟨1, ⟨10⟩, [early], .noFiring⟩] ∧
      (echoStart.calls cs).2.pushback.elements = [⟨1, ⟨10⟩, [late], .noFiring⟩] ∧
      (echoStart.processed cs ++ (echoStart.calls cs).2.pushback.elements).Perm
        ((echoStart.accepted cs).flatMap (Element.pieces echo.views)) := by
  have hfresh : echo.runner SideInputs.empty none () = .ok echoStart := by rfl
  refine ⟨by decide +kernel, by decide +kernel, pieces_conserved hfresh _⟩

end StreamOperator.Runner
