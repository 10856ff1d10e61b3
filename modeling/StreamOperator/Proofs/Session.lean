import StreamOperator.Function.Session

/-! Facts about work. `EndsWith` says what holds of the value and the memory that work leaves when
it succeeds, and of the error and the memory when it fails, and is carried through sequences and
folds. `Ends` leaves the error out, and `Gives` speaks of success alone. -/

namespace StreamOperator.Session

variable {μ α β γ : Type}

theorem run_map (f : α → β) (x : Session μ α) (memory : μ) :
    (f <$> x).run memory = ((x.run memory).1.map f, (x.run memory).2) := by
  rw [map_eq_pure_bind, run_bind]
  rcases x.run memory with ⟨_ | _, _⟩ <;> rfl

theorem foldlM_map {f : β → γ → Session μ β} {g : α → γ → Session μ α} {h : α → β}
    (step : ∀ a c, f (h a) c = h <$> g a c) (cs : List γ) (a : α) :
    cs.foldlM f (h a) = h <$> cs.foldlM g a := by
  induction cs generalizing a with
  | nil => exact (map_pure h a).symm
  | cons c cs ih =>
    rw [List.foldlM_cons, List.foldlM_cons, step, bind_map_left, map_bind]
    exact bind_congr ih

def Alike (x y : Session μ α) : Prop := ∀ memory memory', (x.run memory).1 = (y.run memory').1

namespace Alike

theorem pure (a : α) : Alike (Pure.pure a : Session μ α) (Pure.pure a) := fun _ _ => rfl

theorem bind {x y : Session μ α} {f g : α → Session μ β} (hx : Alike x y)
    (hf : ∀ a, Alike (f a) (g a)) : Alike (x >>= f) (y >>= g) := by
  intro memory memory'
  have hvalue := hx memory memory'
  rw [run_bind, run_bind]
  cases hrun : x.run memory with
  | mk outcome _ =>
    cases hrun' : y.run memory' with
    | mk outcome' _ =>
      rw [hrun, hrun'] at hvalue
      subst hvalue
      cases outcome with
      | error e => rfl
      | ok a => exact hf a _ _

theorem foldlM {f g : β → γ → Session μ β} (h : ∀ b c, Alike (f b c) (g b c)) (cs : List γ)
    (b : β) : Alike (cs.foldlM f b) (cs.foldlM g b) := by
  induction cs generalizing b with
  | nil => exact pure b
  | cons c cs ih =>
    rw [List.foldlM_cons, List.foldlM_cons]
    exact bind (h b c) ih

end Alike

def Gives (x : Session μ α) (memory : μ) (post : α → μ → Prop) : Prop :=
  ∀ a memory', x.run memory = (.ok a, memory') → post a memory'

/-- However the work ends on a memory: where it succeeds, its value and the memory after it are as
said first, and where it fails, the memory is as said last. -/
def Ends (x : Session μ α) (memory : μ) (post : α → μ → Prop) (failed : μ → Prop) : Prop :=
  match x.run memory with
  | (.ok a, memory) => post a memory
  | (.error _, memory) => failed memory

def EndsWith (x : Session μ α) (memory : μ) (post : α → μ → Prop)
    (failed : ExecutionError → μ → Prop) : Prop :=
  match x.run memory with
  | (.ok a, memory) => post a memory
  | (.error e, memory) => failed e memory

namespace EndsWith

variable {memory : μ} {P : α → μ → Prop} {Q : β → μ → Prop} {F : ExecutionError → μ → Prop}

theorem pure {a : α} (h : P a memory) : EndsWith (Pure.pure a) memory P F := h

theorem throw {e : ExecutionError} (h : F e memory) :
    EndsWith (MonadExcept.throw e : Session μ α) memory P F := h

theorem mono {x : Session μ α} {P' : α → μ → Prop} {F' : ExecutionError → μ → Prop}
    (hx : EndsWith x memory P F) (h : ∀ a memory', P a memory' → P' a memory')
    (hf : ∀ e memory', F e memory' → F' e memory') : EndsWith x memory P' F' := by
  unfold EndsWith at hx ⊢
  split
  next a memory' ha =>
    rw [ha] at hx
    exact h a memory' hx
  next e memory' he =>
    rw [he] at hx
    exact hf e memory' hx

theorem bind {x : Session μ α} {f : α → Session μ β} (hx : EndsWith x memory P F)
    (hf : ∀ a memory', P a memory' → EndsWith (f a) memory' Q F) :
    EndsWith (x >>= f) memory Q F := by
  unfold EndsWith at hx
  rw [EndsWith, run_bind]
  rcases ha : x.run memory with ⟨e | a, memory'⟩ <;> rw [ha] at hx
  · exact hx
  · exact hf a memory' hx

/-- The invariant speaks of the part of the list that is done, which the rest completes. -/
theorem foldlM {f : β → γ → Session μ β} {cs : List γ} (inv : List γ → β → μ → Prop)
    (step : ∀ done c rest b memory, cs = done ++ c :: rest → inv done b memory →
      EndsWith (f b c) memory (inv (done ++ [c])) F)
    {b : β} (h : inv [] b memory) : EndsWith (cs.foldlM f b) memory (inv cs) F := by
  have go (done rest : List γ) {b : β} {memory : μ} (hcs : cs = done ++ rest)
      (h : inv done b memory) : EndsWith (rest.foldlM f b) memory (inv cs) F := by
    induction rest generalizing done b memory with
    | nil =>
      rw [List.append_nil] at hcs
      exact pure (hcs ▸ h)
    | cons c rest ih =>
      rw [List.foldlM_cons]
      refine bind (step done c rest b memory hcs h) fun b memory h => ih (done ++ [c]) ?_ h
      rw [hcs, List.append_assoc]
      rfl
  exact go [] cs rfl h

end EndsWith

theorem ends_iff_endsWith {x : Session μ α} {memory : μ} {post : α → μ → Prop} {failed : μ → Prop} :
    Ends x memory post failed ↔ EndsWith x memory post fun _ => failed := by
  unfold Ends EndsWith
  rcases x.run memory with ⟨_ | _, _⟩ <;> exact Iff.rfl

namespace Ends

variable {memory : μ} {P : α → μ → Prop} {Q : β → μ → Prop} {F : μ → Prop}

theorem gives {x : Session μ α} (hx : Ends x memory P F) : Gives x memory P := by
  intro a memory' ha
  rw [Ends, ha] at hx
  exact hx

theorem always {x : Session μ α} (hx : Ends x memory (fun _ => F) F) : F (x.run memory).2 := by
  unfold Ends at hx
  rcases hrun : x.run memory with ⟨e | a, memory'⟩ <;> rw [hrun] at hx <;> exact hx

theorem pure {a : α} (h : P a memory) : Ends (Pure.pure a) memory P F := h

theorem throw {e : ExecutionError} (h : F memory) :
    Ends (MonadExcept.throw e : Session μ α) memory P F := h

theorem mono {x : Session μ α} {P' : α → μ → Prop} {F' : μ → Prop} (hx : Ends x memory P F)
    (h : ∀ a memory', P a memory' → P' a memory') (hf : ∀ memory', F memory' → F' memory') :
    Ends x memory P' F' :=
  ends_iff_endsWith.2 ((ends_iff_endsWith.1 hx).mono h fun _ => hf)

theorem failing {x : Session μ α} {F' : μ → Prop} (hx : Ends x memory P F)
    (hf : ∀ memory', F memory' → F' memory') : Ends x memory P F' :=
  hx.mono (fun _ _ h => h) hf

theorem bind {x : Session μ α} {f : α → Session μ β} (hx : Ends x memory P F)
    (hf : ∀ a memory', P a memory' → Ends (f a) memory' Q F) : Ends (x >>= f) memory Q F :=
  ends_iff_endsWith.2 ((ends_iff_endsWith.1 hx).bind fun a memory' h =>
    ends_iff_endsWith.1 (hf a memory' h))

theorem foldlM {f : β → γ → Session μ β} {cs : List γ} (inv : List γ → β → μ → Prop)
    (step : ∀ done c rest b memory, cs = done ++ c :: rest → inv done b memory →
      Ends (f b c) memory (inv (done ++ [c])) F)
    {b : β} (h : inv [] b memory) : Ends (cs.foldlM f b) memory (inv cs) F :=
  ends_iff_endsWith.2 (.foldlM inv (fun done c rest b memory hcs hinv =>
    ends_iff_endsWith.1 (step done c rest b memory hcs hinv)) h)

end Ends

end StreamOperator.Session
