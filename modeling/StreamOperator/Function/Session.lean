import StreamOperator.Error

/-! Work of a user function: it may fail, and what it did to the function's memory stays either
way. Work may keep a record beside the memory; `Session.Records` says that it does nothing else
than the work without the record. -/

namespace StreamOperator

abbrev Session (μ : Type) := ExceptT ExecutionError (StateM μ)

namespace Session

variable {μ ω α β : Type}

theorem run_bind (x : Session μ α) (f : α → Session μ β) (memory : μ) :
    (x >>= f).run memory =
      match x.run memory with
      | (.ok a, memory) => (f a).run memory
      | (.error e, memory) => (.error e, memory) := by
  show ExceptT.bindCont f (x memory).1 (x memory).2 = _
  rcases h : x memory with ⟨_ | _, _⟩ <;> simp only [ExceptT.run, h] <;> rfl

/-- The first work does what the second does, and appends to its record what does not depend on
the record so far. -/
def Records (x : Session (μ × List ω) α) (y : Session μ α) : Prop :=
  ∀ memory, ∃ entries, ∀ log,
    x.run (memory, log) = ((y.run memory).1, (y.run memory).2, log ++ entries)

namespace Records

theorem of_pure (a : α) : Records (ω := ω) (pure a) (pure a : Session μ α) :=
  fun memory => ⟨[], fun log => by simp only [List.append_nil]; rfl⟩

theorem of_throw (e : ExecutionError) : Records (ω := ω) (throw e) (throw e : Session μ α) :=
  fun memory => ⟨[], fun log => by simp only [List.append_nil]; rfl⟩

theorem bind {x : Session (μ × List ω) α} {y : Session μ α}
    {f : α → Session (μ × List ω) β} {g : α → Session μ β}
    (hx : Records x y) (hf : ∀ a, Records (f a) (g a)) : Records (x >>= f) (y >>= g) := by
  intro memory
  obtain ⟨es, h⟩ := hx memory
  rcases hy : y.run memory with ⟨e | a, memory'⟩
  · exact ⟨es, fun log => by simp only [run_bind, h, hy]⟩
  · obtain ⟨fs, h'⟩ := hf a memory'
    exact ⟨es ++ fs, fun log => by simp only [run_bind, h, hy, h', List.append_assoc]⟩

theorem foldlM {γ : Type} {f : β → γ → Session (μ × List ω) β} {g : β → γ → Session μ β}
    (h : ∀ b c, Records (f b c) (g b c)) (cs : List γ) (b : β) :
    Records (cs.foldlM f b) (cs.foldlM g b) := by
  induction cs generalizing b with
  | nil => exact of_pure b
  | cons c cs ih =>
    simp only [List.foldlM_cons]
    exact bind (h b c) ih

end Records

end Session

end StreamOperator
