import StreamOperator.Proofs.Bundle.Keys
import StreamOperator.Proofs.Runner.Boundaries

/-! Independence of keys, over cells in memory and for a function without memory that does nothing
at the start and the end of a bundle. Elements of one key come out of a bundle as they come out
without the elements of the other keys.

A bundle is taken apart into its elements, each with what it staged over what those before it left
committed. Two runners that agree on the timers and cells of a key stage the same for an element of
that key and agree on them afterwards, and an element of another key leaves the agreement alone. -/

namespace StreamOperator.Runner

variable {μ ι ο ρ : Type} {r r₁ r₂ r' : Runner μ ι ο ρ Cells} {key : EncodedKey}

def hasKey (r : Runner μ ι ο ρ Cells) (key : EncodedKey) (e : Element ι) : Bool :=
  (r.keyOf e.value).toOption = some (some key)

/-- The runners differ at most in the memory, the buffer, and timers and cells of other keys. -/
structure AlikeFor (key : EncodedKey) (r r' : Runner μ ι ο ρ Cells) : Prop where
  frame : r' = { r with
    memory := r'.memory, pushback := r'.pushback, schedule := r'.schedule, store := r'.store }
  timers : r.schedule.AlikeFor key r'.schedule
  cells : Option.Rel (Cells.AlikeFor key) r.store r'.store

theorem AlikeFor.refl (key : EncodedKey) (r : Runner μ ι ο ρ Cells) : r.AlikeFor key r where
  frame := rfl
  timers := .refl key _
  cells := Cells.alikeFor_refl key r.store

theorem afterBundle_empty (r : Runner μ ι ο ρ Cells) :
    r.afterBundle .empty r.schedule r.memory = r := by
  have hnone : (∅ : Std.ExtTreeMap Address (Option Bytes)).toList = [] := by
    rw [← List.isEmpty_iff, Std.ExtTreeMap.isEmpty_toList]
    exact Std.ExtTreeMap.isEmpty_empty
  have hstore : r.store.map (·.writeAll (∅ : Std.ExtTreeMap Address (Option Bytes)).toList) =
      r.store := by
    rw [hnone]
    cases r.store <;> rfl
  unfold afterBundle Staging.empty
  rw [hstore]
  rfl

variable [SideInputReader ρ] {e : Element ι} {es : List (Element ι)} {s : Staging ι ο}
  {ss : List (Staging ι ο)} {schedule : Schedule} {memory : μ}

theorem processOne_eq {k : Option EncodedKey} (hkey : r.keyOf e.value = .ok k) (s : Staging ι ο) :
    r.processOne s e = do
      let s ← (r.split e).ready.foldlM (r.processPiece k) s
      return { s with pushedBack := s.pushedBack ++ (r.split e).pushedBack } := by
  unfold processOne
  rw [hkey]
  exact pure_bind _ _

theorem staged_singleton :
    r.Staged [e] s schedule memory ↔
      (r.processOne .empty e).run r.memory = (.ok s, memory) ∧
        r.schedule.applyOps s.timerOps = .ok schedule ∧ s.Committable := by
  have hwork : [e].foldlM r.processOne .empty = r.processOne .empty e := by
    rw [List.foldlM_cons]
    exact bind_pure _
  rw [← hwork]
  exact ⟨fun h => ⟨h.work, h.schedule, h.committable⟩, fun h => ⟨h.1, h.2.1, h.2.2⟩⟩

theorem exists_key_of_staged (hkeyed : r.operator.encodeKey.isSome)
    (h : r.Staged [e] s schedule memory) : ∃ key, r.keyOf e.value = .ok (some key) := by
  have hwork := (staged_singleton.1 h).1
  obtain ⟨encode, hencode⟩ := Option.isSome_iff_exists.1 hkeyed
  cases hkey : r.keyOf e.value with
  | error cause =>
    rw [processOne, hkey, Session.run_bind] at hwork
    cases hwork
  | ok k =>
    cases k with
    | some key => exact ⟨key, rfl⟩
    | none =>
      simp only [keyOf, hencode] at hkey
      split at hkey <;> cases hkey

theorem onlyFor_of_staged (hkey : r.keyOf e.value = .ok (some key))
    (h : r.Staged [e] s schedule memory) : s.OnlyFor key := by
  have hends : (r.processOne .empty e).Ends r.memory (fun s _ => s.OnlyFor key) fun _ => True := by
    rw [processOne_eq hkey]
    refine .bind (.foldlM (fun _ s _ => s.OnlyFor key) ?_ (Staging.onlyFor_empty key)) ?_
    · intro _ piece _ s memory _ hs
      exact Context.ends_callback_onlyFor rfl _ _ hs memory
    · intro s memory hs
      exact .pure ⟨hs.timerOps, hs.writes⟩
  exact hends.gives _ _ (staged_singleton.1 h).1

theorem alike_processOne (hmemoryless : r.operator.function.Memoryless) (h : r.AlikeFor key r₂)
    (hkey : r.keyOf e.value = .ok (some key)) (s : Staging ι ο) :
    (r.processOne s e).Alike (r₂.processOne s e) := by
  obtain ⟨hframe, htimers, hcells⟩ := h
  have hkey₂ : r₂.keyOf e.value = .ok (some key) := by
    rw [hframe]
    exact hkey
  have hsplit : r₂.split e = r.split e := by
    rw [hframe]
    rfl
  rw [processOne_eq hkey, processOne_eq hkey₂, hsplit]
  refine .bind (.foldlM ?_ _ s) fun s => .pure _
  intro s piece
  unfold processPiece
  rw [hframe]
  exact Context.alike_callback rfl htimers hcells (hmemoryless piece) .processElement s

theorem Staged.alike (hmemoryless : r.operator.function.Memoryless) (h : r.AlikeFor key r₂)
    (hkey : r.keyOf e.value = .ok (some key)) (hs : r.Staged [e] s schedule memory) :
    ∃ schedule₂ memory₂, r₂.Staged [e] s schedule₂ memory₂ ∧
      (r.afterBundle s schedule memory).AlikeFor key (r₂.afterBundle s schedule₂ memory₂) := by
  obtain ⟨hwork, hschedule, hcommittable⟩ := staged_singleton.1 hs
  have hvalue := alike_processOne hmemoryless h hkey .empty r.memory r₂.memory
  rw [hwork] at hvalue
  obtain ⟨schedule₂, hschedule₂⟩ := Schedule.exists_applyOps hcommittable.served r₂.schedule
  refine ⟨schedule₂, ((r₂.processOne .empty e).run r₂.memory).2, ?_, ?_⟩
  · exact staged_singleton.2 ⟨Prod.ext hvalue.symm rfl, hschedule₂, hcommittable⟩
  · refine ⟨?_, h.timers.applyOps hschedule hschedule₂, Cells.alikeFor_writeAll h.cells⟩
    unfold afterBundle
    rw [h.frame]

theorem Staged.alike_of_ne {k : EncodedKey} (h : r.AlikeFor key r₂) (hne : k ≠ key)
    (hkey : r.keyOf e.value = .ok (some k)) (hs : r.Staged [e] s schedule memory) :
    (r.afterBundle s schedule memory).AlikeFor key r₂ := by
  have honly := onlyFor_of_staged hkey hs
  have hops : ∀ op ∈ s.timerOps, op.key ≠ key := by
    intro op hop
    rw [honly.timerOps op hop]
    exact hne
  have hwrites : ∀ a ∈ s.writes, a.key ≠ key.bytes := by
    intro a ha heq
    rw [honly.writes a ha] at heq
    exact hne (congrArg EncodedKey.mk heq)
  refine ⟨?_, (Schedule.alikeFor_applyOps hs.schedule hops).trans h.timers,
    Cells.alikeFor_writeAll_left h.cells hwrites⟩
  unfold afterBundle
  rw [h.frame]

/-- Each element stages its share on a runner that has committed the shares before it. -/
inductive Shares : Runner μ ι ο ρ Cells → List (Element ι) → List (Staging ι ο) →
    Runner μ ι ο ρ Cells → Prop
  | nil (r : Runner μ ι ο ρ Cells) : Shares r [] [] r
  | cons {r r' : Runner μ ι ο ρ Cells} {e : Element ι} {es : List (Element ι)} {s : Staging ι ο}
      {ss : List (Staging ι ο)} {schedule : Schedule} {memory : μ}
      (head : r.Staged [e] s schedule memory)
      (rest : Shares (r.afterBundle s schedule memory) es ss r') : Shares r (e :: es) (s :: ss) r'

theorem exists_shares (h : r.Staged es s schedule memory) :
    ∃ ss, Shares r es ss (r.afterBundle s schedule memory) := by
  induction es generalizing r s with
  | nil =>
    have hwork := h.work
    cases hwork
    have hschedule := h.schedule
    cases hschedule
    rw [afterBundle_empty]
    exact ⟨[], .nil r⟩
  | cons e es ih =>
    have hcons : r.Staged ([e] ++ es) s schedule memory := h
    obtain ⟨p, schedule', memory', hp⟩ := hcons.left
    obtain ⟨s', hs', rfl⟩ := hp.append_iff.1 hcons
    obtain ⟨ss, hss⟩ := ih hs'
    rw [← afterBundle_append] at hss
    exact ⟨p :: ss, .cons hp hss⟩

namespace Shares

theorem length_eq (h : Shares r es ss r') : ss.length = es.length := by
  induction h with
  | nil => rfl
  | cons _ _ ih => rw [List.length_cons, List.length_cons, ih]

theorem take (h : Shares r es ss r') (n : Nat) : ∃ r', Shares r (es.take n) (ss.take n) r' := by
  induction h generalizing n with
  | nil r =>
    rw [List.take_nil, List.take_nil]
    exact ⟨r, .nil r⟩
  | @cons r _ _ _ _ _ _ _ head _ ih =>
    cases n with
    | zero => exact ⟨r, .nil r⟩
    | succ n =>
      obtain ⟨r', hr'⟩ := ih n
      exact ⟨r', .cons head hr'⟩

theorem exists_staged (h : Shares r es ss r') :
    ∃ s schedule memory, r.Staged es s schedule memory ∧ r' = r.afterBundle s schedule memory ∧
      s.outputs = ss.flatMap Staging.outputs ∧ s.residuals = ss.flatMap Staging.residuals ∧
      s.pushedBack = ss.flatMap Staging.pushedBack := by
  induction h with
  | nil r =>
    refine ⟨.empty, r.schedule, r.memory, ⟨rfl, rfl, Staging.committable_empty⟩, ?_, rfl, rfl, rfl⟩
    rw [afterBundle_empty]
  | @cons r _ _ _ p _ _ _ head _ ih =>
    obtain ⟨s, schedule', memory', hs, rfl, houtputs, hresiduals, hback⟩ := ih
    refine ⟨p ++ s, schedule', memory', head.append_iff.2 ⟨s, hs, rfl⟩, ?_, ?_, ?_, ?_⟩
    · rw [← afterBundle_append]
    · rw [Staging.outputs_append, houtputs, List.flatMap_cons]
    · rw [Staging.residuals_append, hresiduals, List.flatMap_cons]
    · rw [Staging.pushedBack_append, hback, List.flatMap_cons]

theorem filter (h : Shares r es ss r') (hmemoryless : r.operator.function.Memoryless)
    (hkeyed : r.operator.encodeKey.isSome) (halike : r.AlikeFor key r₂) :
    ∃ r₂', Shares r₂ (es.filter (r.hasKey key))
        (((es.zip ss).filter fun x => r.hasKey key x.1).map Prod.snd) r₂' ∧
      r'.AlikeFor key r₂' := by
  induction h generalizing r₂ with
  | nil r => exact ⟨r₂, .nil r₂, halike⟩
  | @cons r _ e es s ss schedule memory head _ ih =>
    obtain ⟨k, hk⟩ := exists_key_of_staged hkeyed head
    rw [List.zip_cons_cons, List.filter_cons, List.filter_cons]
    by_cases hkey : k = key
    · subst hkey
      obtain ⟨schedule₂, memory₂, hs₂, halike₂⟩ := head.alike hmemoryless halike hk
      obtain ⟨r₂', hrest, halike'⟩ := ih hmemoryless hkeyed halike₂
      have hmem : r.hasKey k e = true := by simp [hasKey, hk, Except.toOption]
      rw [if_pos hmem, if_pos hmem]
      exact ⟨r₂', .cons hs₂ hrest, halike'⟩
    · have hmem : ¬ r.hasKey key e = true := by simp [hasKey, hk, Except.toOption, hkey]
      rw [if_neg hmem, if_neg hmem]
      exact ih hmemoryless hkeyed (head.alike_of_ne halike hkey hk)

end Shares

/-- What each element of a bundle adds to it: the bundle over the first elements gives their shares
one after the other. -/
structure Yields (r : Runner μ ι ο ρ Cells) (es : List (Element ι)) (ss : List (Staging ι ο)) :
    Prop where
  length_eq : ss.length = es.length
  prefixes : ∀ n, ∃ result r', r.processBundle (es.take n) = (.ok result, r') ∧
    result.outputs = .ofEmissions r.outputs ((ss.take n).flatMap Staging.outputs) ∧
    result.residuals = (ss.take n).flatMap Staging.residuals ∧
    r'.pushback = r.pushback.extend ((ss.take n).flatMap Staging.pushedBack)

theorem Shares.processBundle (h : Shares r es ss r') (hbare : r.operator.function.Unbracketed)
    (hready : r.lifecycle ≠ .created) :
    ∃ result, r.processBundle es = (.ok result, r') ∧
      result.outputs = .ofEmissions r.outputs (ss.flatMap Staging.outputs) ∧
      result.residuals = ss.flatMap Staging.residuals ∧
      r'.pushback = r.pushback.extend (ss.flatMap Staging.pushedBack) := by
  obtain ⟨s, schedule, memory, hs, hr', houtputs, hresiduals, hback⟩ := h.exists_staged
  have hcall := (processBundle_eq_ok_iff hbare hready).2 ⟨s, schedule, memory, hs, rfl, hr'⟩
  refine ⟨r.resultOf s, hcall, ?_, hresiduals, ?_⟩
  · rw [← houtputs]
    rfl
  · rw [hr', ← hback]
    rfl

theorem Shares.yields (h : Shares r es ss r') (hbare : r.operator.function.Unbracketed)
    (hready : r.lifecycle ≠ .created) : r.Yields es ss where
  length_eq := h.length_eq
  prefixes n := by
    obtain ⟨r', hr'⟩ := h.take n
    obtain ⟨result, hresult⟩ := hr'.processBundle hbare hready
    exact ⟨result, r', hresult⟩

theorem yields_of_setup_ok (h : r.setup = (.ok (), r₁)) (hyields : r₁.Yields es ss) :
    r.Yields es ss where
  length_eq := hyields.length_eq
  prefixes n := by
    have houtputs : r₁.outputs = r.outputs := by rw [frame_of_setup_ok h]
    have hpushback : r₁.pushback = r.pushback := by rw [frame_of_setup_ok h]
    rw [processBundle_of_setup_ok h, ← houtputs, ← hpushback]
    exact hyields.prefixes n

/-- Elements of one key are processed as if there were no elements of other keys. A bundle over
them alone succeeds if the whole bundle does, it leaves the same timers and cells of the key, and
each of them adds the same outputs, residuals and pieces pushed back. -/
theorem processBundle_key (r : Runner μ ι ο ρ Cells) (hkeyed : r.operator.encodeKey.isSome)
    (hbare : r.operator.function.Unbracketed) (hmemoryless : r.operator.function.Memoryless)
    {xs : List (Element ι)} {whole : CallResult ι ο} {r' : Runner μ ι ο ρ Cells}
    (hwhole : r.processBundle xs = (.ok whole, r')) (key : EncodedKey) :
    ∃ part r'', r.processBundle (xs.filter (r.hasKey key)) = (.ok part, r'') ∧
      r'.AlikeFor key r'' ∧
      ∃ shares, r.Yields xs shares ∧
        r.Yields (xs.filter (r.hasKey key))
          (((xs.zip shares).filter fun x => r.hasKey key x.1).map Prod.snd) := by
  cases hsetup : r.setup with
  | mk outcome r₁ =>
    cases outcome with
    | error e =>
      rw [processBundle_of_setup_error hsetup] at hwhole
      cases hwhole
    | ok _ =>
      have hready := lifecycle_ne_created_of_setup_ok hsetup
      have hoperator : r₁.operator = r.operator := by rw [frame_of_setup_ok hsetup]
      have hhas : r₁.hasKey key = r.hasKey key := by
        unfold hasKey keyOf
        rw [hoperator]
      rw [← hoperator] at hkeyed hbare hmemoryless
      rw [processBundle_of_setup_ok hsetup, processBundle_eq_ok_iff hbare hready] at hwhole
      obtain ⟨s, schedule, memory, hs, -, rfl⟩ := hwhole
      obtain ⟨shares, hshares⟩ := exists_shares hs
      obtain ⟨r'', hpart, halike⟩ := hshares.filter hmemoryless hkeyed (.refl key r₁)
      obtain ⟨part, hresult, -⟩ := hpart.processBundle hbare hready
      rw [hhas] at hpart hresult
      refine ⟨part, r'', ?_, halike, shares, ?_, ?_⟩
      · rw [processBundle_of_setup_ok hsetup]
        exact hresult
      · exact yields_of_setup_ok hsetup (hshares.yields hbare hready)
      · exact yields_of_setup_ok hsetup (hpart.yields hbare hready)

def tallyByParity : Runner Unit Nat Nat NoSideInputs Cells :=
  { tallyStart with operator := { tally with encodeKey := some fun n => .ok ⟨[n.toUInt8 % 2]⟩ } }

theorem tally_odd :
    ∃ whole r' part r'',
      tallyByParity.processBundle ([1, 2, 4, 5].map (Element.inGlobalWindow · ⟨10⟩)) =
        (.ok whole, r') ∧
      whole.outputs.mainData.map Element.value = [0, 0, 1, 1] ∧
      tallyByParity.processBundle ([1, 5].map (Element.inGlobalWindow · ⟨10⟩)) = (.ok part, r'') ∧
      part.outputs.mainData.map Element.value = [0, 1] ∧
      r'.AlikeFor ⟨[1]⟩ r'' := by
  have hvalues : ((tallyByParity.processBundle
      ([1, 2, 4, 5].map (Element.inGlobalWindow · ⟨10⟩))).1.toOption.map fun result =>
        result.outputs.mainData.map Element.value) = some [0, 0, 1, 1] := by
    decide +kernel
  have hodd : ((tallyByParity.processBundle
      ([1, 5].map (Element.inGlobalWindow · ⟨10⟩))).1.toOption.map fun result =>
        result.outputs.mainData.map Element.value) = some [0, 1] := by
    decide +kernel
  cases hwhole : tallyByParity.processBundle
      ([1, 2, 4, 5].map (Element.inGlobalWindow · ⟨10⟩)) with
  | mk outcome r' =>
    rw [hwhole] at hvalues
    cases outcome with
    | error e => cases hvalues
    | ok whole =>
      obtain ⟨part, r'', hpart, halike, -⟩ := tallyByParity.processBundle_key rfl ⟨rfl, rfl⟩
        (fun _ _ _ => rfl) hwhole ⟨[1]⟩
      have hpart' : tallyByParity.processBundle ([1, 5].map (Element.inGlobalWindow · ⟨10⟩)) =
          (.ok part, r'') := hpart
      rw [hpart'] at hodd
      exact ⟨whole, r', part, r'', rfl, Option.some.inj hvalues, hpart', Option.some.inj hodd,
        halike⟩

end StreamOperator.Runner
