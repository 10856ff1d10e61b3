import StreamOperator.Proofs.Runner.Effects
import StreamOperator.Proofs.Runner.Turns

/-! Where outputs go. Every tag of an operator has a channel of its own, and a call that succeeds gives
on the channel of a tag what was emitted under that tag, in order and all of it. -/

namespace StreamOperator.Runner

variable {μ ι ο ρ σ : Type} [SideInputReader ρ] [StateStore σ]

section

variable {o : Operator μ ι ο} {r r' : Runner μ ι ο ρ σ} {c : Call ι} {result : CallResult ι ο}

theorem outputs_of_succeeded {events : List (Event ι ο)} (h : Succeeded r c result events r') :
    r'.outputs = r.outputs := by
  cases h with
  | bracket | ignored | arrived => rfl
  | bundle committed =>
    rw [committed.frame]
  | replayed declared committed =>
    have hframe := congrArg Runner.outputs committed.frame
    exact hframe
  | passed passed => rw [passed.frame]

theorem Sound.outputs_call (hr : Sound o r) (c : Call ι) : (r.call c).2.outputs = r.outputs := by
  rcases hc : r.call c with ⟨e | result, r'⟩
  · by_cases hdown : c = .teardown
    · subst hdown
      have hr' : r.teardown.2 = r' := congrArg Prod.snd hc
      rw [← hr', teardown_frame]
    · rw [(call_error hr.buffered hdown hc).outputs, received_frame]
  · exact outputs_of_succeeded (call_ok hr.scheduled hc)

theorem Reached.outputs (h : Reached o r) :
    r.outputs = ⟨o.mainOutput, o.sideOutputs⟩ ∧ (o.mainOutput :: o.sideOutputs).Nodup := by
  induction h with
  | fresh h =>
    unfold Operator.runner at h
    split at h
    · cases h
    · split at h
      · cases h
      next hcreate =>
        cases h
        obtain ⟨-, hnodup, htable⟩ := OutputTable.create_eq_ok_iff.1 hcreate
        exact ⟨htable, hnodup⟩
  | call hreached c ih => exact ⟨(hreached.sound.outputs_call c).trans ih.1, ih.2⟩
  | shared _ _ ih => exact ih

theorem refusal?_of_call_ok (h : r.call c = (.ok result, r')) :
    ∀ e ∈ r.events c, e.refusal? = none := by
  have haccounts := r.accounts_call c
  rw [call_recorded, h] at haccounts
  obtain ⟨turns, htells, hwell⟩ := haccounts
  intro e he
  cases e with
  | called occasion key => rfl
  | ended result => rfl
  | asked q reply =>
    obtain ⟨t, ht, hasked⟩ := htells.exists_of_asked he
    have hrefusal : t.refusal? (r.received c).operator.function = none :=
      (Option.or_eq_none_iff.1 (hwell t ht)).1
    exact List.findSome?_eq_none_iff.1 hrefusal _ hasked

theorem channel?_of_mem_emissions (hr : Sound o r) {x : String × Element ο}
    (hx : x ∈ Event.emissions r.outputs.main (r.events c)) : (r.outputs.channel? x.1).isSome := by
  have hmain : (r.outputs.channel? r.outputs.main).isSome :=
    OutputTable.isSome_channel?_iff.2 List.mem_cons_self
  obtain ⟨occasion, key, q, reply, -, hasked, hread⟩ := Event.exists_of_mem_collect hx
  obtain ⟨turns, htells, -⟩ := hr.exists_turns c
  obtain ⟨t, ht, hasked⟩ := htells.exists_of_asked hasked
  obtain ⟨done, rest, hrecord⟩ := List.append_of_mem hasked
  have houtputs : t.context.outputs = r.outputs := by
    rw [(htells.surrounds t ht).context, received_frame]
    rfl
  have hrefusal := t.context.refusal?_answer (t.context.stagedAfter t.staged done) q
  rw [← Context.reply_of_events hrecord] at hrefusal
  cases q with
  | output value | outputAt value time =>
    cases reply with
    | error e => cases hread
    | ok _ =>
      obtain ⟨f, -, rfl⟩ := Option.map_eq_some_iff.1 hread
      exact hmain
  | outputWhole e =>
    cases hread
    exact hmain
  | outputTo tag value =>
    cases reply with
    | error e => cases hread
    | ok _ =>
      obtain ⟨f, -, rfl⟩ := Option.map_eq_some_iff.1 hread
      have htag := (Option.or_eq_none_iff.1 hrefusal.symm).1
      rw [Context.missingTag, houtputs] at htag
      by_contra hunbound
      rw [if_neg hunbound] at htag
      cases htag
  | _ => cases hread

end

/-- A table is made just where there is room for the side tags and no tag occurs twice, and it gives
each tag a channel of its own and no other tag one. In a call that succeeds nothing was refused, all
that was emitted was emitted under a declared tag, and every channel gives what was emitted under its
tag, in that order. -/
theorem outputs_of_reached :
    (∀ (main : String) (side : List String) (capacity : Nat),
      ((∃ t, OutputTable.create main side capacity = .ok t) ↔
        side.length ≤ capacity ∧ (main :: side).Nodup) ∧
      ∀ t, OutputTable.create main side capacity = .ok t →
        (∀ tag, (t.channel? tag).isSome ↔ tag ∈ main :: side) ∧
        ∀ tag tag' channel, t.channel? tag = some channel → t.channel? tag' = some channel →
          tag = tag') ∧
    ∀ {o : Operator μ ι ο} {r r' : Runner μ ι ο ρ σ}, Reached o r →
      ∀ {c : Call ι} {result : CallResult ι ο}, r.call c = (.ok result, r') →
        (∀ e ∈ r.events c, e.refusal? = none) ∧
        (∀ x ∈ Event.emissions o.mainOutput (r.events c), x.1 ∈ o.mainOutput :: o.sideOutputs) ∧
        result.outputs.mainData =
          Outputs.underTag o.mainOutput (Event.emissions o.mainOutput (r.events c)) ∧
        ∀ tag ∈ o.sideOutputs, result.outputs.side? tag =
          some (Outputs.underTag tag (Event.emissions o.mainOutput (r.events c))) := by
  constructor
  · intro main side capacity
    constructor
    · constructor
      · rintro ⟨t, ht⟩
        obtain ⟨hroom, hnodup, -⟩ := OutputTable.create_eq_ok_iff.1 ht
        exact ⟨hroom, hnodup⟩
      · rintro ⟨hroom, hnodup⟩
        exact ⟨_, OutputTable.create_eq_ok_iff.2 ⟨hroom, hnodup, rfl⟩⟩
    · intro t ht
      obtain ⟨-, -, rfl⟩ := OutputTable.create_eq_ok_iff.1 ht
      exact ⟨fun tag => OutputTable.isSome_channel?_iff,
        fun tag tag' channel => OutputTable.channel?_injective⟩
  · intro o r r' hreached c result hcall
    obtain ⟨htable, hnodup⟩ := hreached.outputs
    have hmain : r.outputs.main = o.mainOutput := by rw [htable]
    have hside : r.outputs.side = o.sideOutputs := by rw [htable]
    obtain ⟨hdata, hsides⟩ := outputs_of_call_ok hcall
    refine ⟨refusal?_of_call_ok hcall, ?_, ?_, ?_⟩
    · intro x hx
      rw [← hmain] at hx
      have hchannel := channel?_of_mem_emissions hreached.sound hx
      rw [OutputTable.isSome_channel?_iff, hmain, hside] at hchannel
      exact hchannel
    · rw [hdata, emitted, Outputs.mainData_resolve, hmain]
    · intro tag htag
      have hlookup : result.outputs.side? tag = (r.emitted (r.events c)).side? tag :=
        congrArg (List.lookup tag) hsides
      rw [← hmain, ← hside] at hnodup
      rw [← hside] at htag
      rw [hlookup, emitted, Outputs.side?_resolve hnodup htag, hmain]

/-- Passes values on, the odd ones to a side channel too, and ends a bundle with a zero under the tag
of the main channel. -/
def sorter : Operator Unit Nat Nat where
  function := {
    processElement := fun e m => .ask (.output e.value) fun _ =>
      if e.value % 2 = 1 then .ask (.outputTo "odd" e.value) fun _ => .done (.success m)
      else .ask (.outputTo "main" (e.value * 10)) fun _ => .done (.success m)
    finishBundle := fun m => .ask (.outputWhole (.timeless 0)) fun _ => .done (.success m) }
  sideOutputs := ["odd", "late"]

def sorterStart : Runner Unit Nat Nat NoSideInputs Cells where
  operator := sorter
  outputs := ⟨"main", ["odd", "late"]⟩
  reader := ⟨⟩
  pushback := .empty
  watermark := .start false
  schedule := .empty
  store := none
  lifecycle := .created
  memory := ()

theorem outputs_of_sorter :
    let elements := [1, 2, 3].map fun n => Element.inGlobalWindow n ⟨10⟩
    ∃ result r', sorterStart.call (.bundle elements) = (.ok result, r') ∧
      result.outputs.mainData.map Element.value = [1, 2, 20, 3, 0] ∧
      result.outputs.side? "odd" = some [.inGlobalWindow 1 ⟨10⟩, .inGlobalWindow 3 ⟨10⟩] ∧
      result.outputs.side? "late" = some [] := by
  intro elements
  have hfresh : sorter.runner NoSideInputs.mk none () = .ok sorterStart := by rfl
  have hok : (sorterStart.call (.bundle elements)).1.isOk = true := by decide +kernel
  have hemissions : Event.emissions "main" (sorterStart.events (.bundle elements)) =
      [("main", .inGlobalWindow 1 ⟨10⟩), ("odd", .inGlobalWindow 1 ⟨10⟩),
        ("main", .inGlobalWindow 2 ⟨10⟩), ("main", .inGlobalWindow 20 ⟨10⟩),
        ("main", .inGlobalWindow 3 ⟨10⟩), ("odd", .inGlobalWindow 3 ⟨10⟩),
        ("main", .timeless 0)] := by
    decide +kernel
  rcases hcall : sorterStart.call (.bundle elements) with ⟨e | result, r'⟩
  · rw [hcall] at hok
    cases hok
  · obtain ⟨-, -, hmain, hside⟩ := outputs_of_reached.2 (.fresh hfresh) hcall
    have hodd := hside "odd" (by decide)
    have hlate := hside "late" (by decide)
    change result.outputs.mainData = Outputs.underTag "main" (Event.emissions "main" _) at hmain
    change _ = some (Outputs.underTag "odd" (Event.emissions "main" _)) at hodd
    change _ = some (Outputs.underTag "late" (Event.emissions "main" _)) at hlate
    rw [hemissions] at hmain hodd hlate
    refine ⟨result, r', rfl, ?_, hodd, hlate⟩
    rw [hmain]
    decide

end StreamOperator.Runner
