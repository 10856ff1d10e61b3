import StreamOperator.Proofs.Watermark.Sources

/-! Passes that fail. A pass may come to the sources in any order. One that fails has changed
nothing, and the report at fault stays where it is, so no later pass gets past it in any order; only
clearing the aggregator takes it away. -/

namespace StreamOperator.SourceAggregator

variable {a a' b : SourceAggregator} {c : AggregatorCall} {source : UInt32}
  {w : SourceWatermarks} {e : InternalError} {order : List UInt32}

/-- Merges the oldest reports of sources in turn, up to the first that breaks a rule. -/
def visit (a : SourceAggregator) (merged : WatermarkSnapshot) :
    List UInt32 → Except InternalError WatermarkSnapshot × SourceAggregator
  | [] => (.ok merged, a)
  | source :: order =>
    match (a.queue source).head? with
    | none => a.visit merged order
    | some report =>
      match SourceWatermarks.merge source a.current[source]? report with
      | .error e => (.error e, a)
      | .ok w => a.visit (merged.insert source w) order

/-- A pass in its steps: the sources are visited, then their oldest reports are dropped, and then the
aggregate is replaced. -/
def passIn (a : SourceAggregator) (order : List UInt32) :
    Except InternalError (Option WatermarkSnapshot) × SourceAggregator :=
  if order.all fun source => (a.queue source).isEmpty then (.ok none, a)
  else
    match a.visit ∅ order with
    | (.error e, a) => (.error e, a)
    | (.ok merged, a) =>
      let a := { a with pending := dropOldest a.pending }
      let a := { a with current := merged }
      (.ok (some merged), a)

def performIn (a : SourceAggregator) (order : List UInt32) (c : AggregatorCall) :
    Except InternalError (Option WatermarkSnapshot) × SourceAggregator :=
  match a.passIn order with
  | (.ok (some merged), a) => (.ok (some merged), { a with lastBatch := c.batch?.getD a.lastBatch })
  | other => other

/-- How an operation may end: a pass has any order of the sources that have a queue. -/
inductive Ends (a : SourceAggregator) : AggregatorCall →
    Except InternalError (Option WatermarkSnapshot) → SourceAggregator → Prop
  | report (source : UInt32) (w : SourceWatermarks) :
      a.Ends (.report source w) (.ok none) (a.report source w)
  | pass {c : AggregatorCall} {order : List UInt32} (kind : c.isPass)
      (listed : order.Perm a.pending.keys) :
      a.Ends c (a.performIn order c).1 (a.performIn order c).2
  | clear : a.Ends .clear (.ok none) empty

inductive Reaches : SourceAggregator → List AggregatorCall → SourceAggregator → Prop
  | nil (a : SourceAggregator) : a.Reaches [] a
  | cons {a m b : SourceAggregator} {c : AggregatorCall} {cs : List AggregatorCall}
      {answer : Except InternalError (Option WatermarkSnapshot)} (first : a.Ends c answer m)
      (rest : m.Reaches cs b) : a.Reaches (c :: cs) b

def AtFault (a : SourceAggregator) (source : UInt32) (e : InternalError) : Prop :=
  ∃ report, (a.queue source).head? = some report ∧
    SourceWatermarks.merge source a.current[source]? report = .error e

theorem visit_cases (a : SourceAggregator) (merged : WatermarkSnapshot) (order : List UInt32) :
    (∃ e source, a.visit merged order = (.error e, a) ∧ a.AtFault source e) ∨
      (∃ merged', a.visit merged order = (.ok merged', a)) ∧
        ∀ source ∈ order, ∀ e, ¬ a.AtFault source e := by
  induction order generalizing merged with
  | nil => exact Or.inr ⟨⟨merged, rfl⟩, fun source hmem => by cases hmem⟩
  | cons source order ih =>
    unfold visit
    cases hhead : (a.queue source).head? with
    | none =>
      refine (ih merged).imp_right fun ⟨hvisit, hclear⟩ =>
        ⟨hvisit, List.forall_mem_cons.2 ⟨?_, hclear⟩⟩
      rintro e ⟨report, hreport, -⟩
      rw [hhead] at hreport
      cases hreport
    | some report =>
      cases hmerge : SourceWatermarks.merge source a.current[source]? report with
      | error e => exact Or.inl ⟨e, source, by simp only [hmerge], report, hhead, hmerge⟩
      | ok w =>
        simp only [hmerge]
        refine (ih (merged.insert source w)).imp_right fun ⟨hvisit, hclear⟩ =>
          ⟨hvisit, List.forall_mem_cons.2 ⟨?_, hclear⟩⟩
        rintro e ⟨report', hreport, hfault⟩
        rw [hhead] at hreport
        cases hreport
        rw [hmerge] at hfault
        cases hfault

theorem mem_keys_of_queue_ne_nil (h : a.queue source ≠ []) : source ∈ a.pending.keys := by
  rw [Std.ExtTreeMap.mem_keys]
  by_contra hmem
  exact h (Std.ExtTreeMap.getD_eq_fallback hmem)

theorem performIn_cases (a : SourceAggregator) (c : AggregatorCall)
    (listed : order.Perm a.pending.keys) :
    (∃ e source, a.performIn order c = (.error e, a) ∧ a.AtFault source e) ∨
      (∃ answer b, a.performIn order c = (.ok answer, b)) ∧ ∀ source e, ¬ a.AtFault source e := by
  have hmem {source : UInt32} {e : InternalError} (h : a.AtFault source e) : source ∈ order := by
    obtain ⟨report, hreport, -⟩ := h
    apply listed.mem_iff.2 (mem_keys_of_queue_ne_nil _)
    intro hnil
    rw [hnil] at hreport
    cases hreport
  unfold performIn passIn
  by_cases hidle : order.all fun source => (a.queue source).isEmpty
  · rw [if_pos hidle]
    refine Or.inr ⟨⟨none, a, rfl⟩, fun source e h => ?_⟩
    have hempty := List.all_eq_true.1 hidle source (hmem h)
    obtain ⟨report, hreport, -⟩ := h
    rw [List.isEmpty_iff.1 hempty] at hreport
    cases hreport
  · rw [if_neg hidle]
    rcases a.visit_cases ∅ order with ⟨e, source, hvisit, hfault⟩ | ⟨⟨merged, hvisit⟩, hclear⟩ <;>
      rw [hvisit]
    · exact Or.inl ⟨e, source, rfl, hfault⟩
    · exact Or.inr ⟨⟨_, _, rfl⟩, fun source e h => hclear source (hmem h) e h⟩

theorem Ends.of_error {answer : Except InternalError (Option WatermarkSnapshot)}
    (h : a.Ends c answer b) (he : answer = .error e) :
    b = a ∧ ∃ source, a.AtFault source e := by
  cases h with
  | report | clear => cases he
  | pass kind listed =>
    rcases a.performIn_cases c listed with ⟨e', source, hfails, hfault⟩ | ⟨⟨answer, b, hends⟩, -⟩
    · rw [hfails] at he ⊢
      cases he
      exact ⟨rfl, source, hfault⟩
    · rw [hends] at he
      cases he

theorem AtFault.pass_fails {answer : Except InternalError (Option WatermarkSnapshot)}
    (h : a.AtFault source e) (hc : c.isPass) (hends : a.Ends c answer b) :
    (∃ e', answer = .error e') ∧ b = a := by
  cases hends with
  | report | clear => cases hc
  | pass kind listed =>
    rcases a.performIn_cases c listed with ⟨e', _, hfails, -⟩ | ⟨-, hclear⟩
    · rw [hfails]
      exact ⟨⟨e', rfl⟩, rfl⟩
    · exact absurd h (hclear source e)

theorem AtFault.of_ends {answer : Except InternalError (Option WatermarkSnapshot)}
    (h : a.AtFault source e) (hends : a.Ends c answer b) (hc : c ≠ .clear) :
    b.AtFault source e ∧ (∀ s, a.queue s <+: b.queue s) ∧ b.current = a.current ∧
      b.lastBatch = a.lastBatch := by
  cases c with
  | clear => exact absurd rfl hc
  | advance | completeBatch =>
    rw [(h.pass_fails rfl hends).2]
    exact ⟨h, fun _ => List.prefix_refl _, rfl, rfl⟩
  | report s w =>
    obtain ⟨report, hreport, hfault⟩ := h
    have hqueue (t : UInt32) : a.queue t <+: (a.report s w).queue t := by
      rw [queue_report]
      split
      · exact List.prefix_append _ _
      · exact List.prefix_refl _
    cases hends with
    | pass kind => cases kind
    | report =>
      refine ⟨⟨report, ?_, hfault⟩, hqueue, rfl, rfl⟩
      obtain ⟨rest, hrest⟩ := hqueue source
      rw [← hrest, List.head?_append, hreport, Option.some_or]

theorem AtFault.of_reaches {cs : List AggregatorCall} (h : a.AtFault source e)
    (hreach : a.Reaches cs b) (hcs : .clear ∉ cs) :
    b.AtFault source e ∧ (∀ s, a.queue s <+: b.queue s) ∧ b.current = a.current ∧
      b.lastBatch = a.lastBatch := by
  induction hreach with
  | nil => exact ⟨h, fun _ => List.prefix_refl _, rfl, rfl⟩
  | cons first rest ih =>
    rw [List.mem_cons, not_or] at hcs
    obtain ⟨hm, hqueue, hcurrent, hbatch⟩ := h.of_ends first (Ne.symm hcs.1)
    obtain ⟨hb, hqueue', hcurrent', hbatch'⟩ := ih hm hcs.2
    exact ⟨hb, fun s => (hqueue s).trans (hqueue' s), hcurrent'.trans hcurrent,
      hbatch'.trans hbatch⟩

def oldestOf? (a : SourceAggregator) (source : UInt32) : Option (UInt32 × SourceWatermarks) :=
  (a.queue source).head?.map (source, ·)

theorem visit_eq (a : SourceAggregator) (merged : WatermarkSnapshot) (order : List UInt32) :
    a.visit merged order =
      match (order.filterMap a.oldestOf?).mapM (mergeOne a.current) with
      | .ok entries => (.ok (merged.insertMany entries), a)
      | .error e => (.error e, a) := by
  induction order generalizing merged with
  | nil => exact congrArg (fun m => (Except.ok m, a)) Std.ExtTreeMap.insertMany_nil.symm
  | cons source order ih =>
    unfold visit
    rw [List.filterMap_cons]
    cases hhead : (a.queue source).head? with
    | none =>
      have hnone : a.oldestOf? source = none := by rw [oldestOf?, hhead]; rfl
      rw [hnone]
      exact ih merged
    | some report =>
      have hsome : a.oldestOf? source = some (source, report) := by rw [oldestOf?, hhead]; rfl
      rw [hsome]
      dsimp only
      rw [List.mapM_cons, mergeOne]
      dsimp only
      cases hmerge : SourceWatermarks.merge source a.current[source]? report with
      | error e => rfl
      | ok w =>
        dsimp only
        rw [ih]
        cases (order.filterMap a.oldestOf?).mapM (mergeOne a.current) with
        | error e => rfl
        | ok entries =>
          exact congrArg (fun m => (Except.ok m, a)) Std.ExtTreeMap.insertMany_cons.symm

theorem filterMap_keys_eq_oldest (a : SourceAggregator) :
    a.pending.keys.filterMap a.oldestOf? = a.oldest := by
  rw [oldest, ← Std.ExtTreeMap.map_fst_toList_eq_keys, List.filterMap_map]
  refine List.filterMap_congr fun ⟨source, reports⟩ hmem => ?_
  have hqueue : a.queue source = reports := by
    rw [queue, Std.ExtTreeMap.getD_eq_getD_getElem?,
      Std.ExtTreeMap.mem_toList_iff_getElem?_eq_some.1 hmem]
    rfl
  simp only [Function.comp_apply, oldestOf?, hqueue]

theorem passIn_keys (a : SourceAggregator) :
    a.passIn a.pending.keys =
      match a.advance with
      | .ok (snapshot, a) => (.ok snapshot, a)
      | .error e => (.error e, a) := by
  have hidle : (a.pending.keys.all fun source => (a.queue source).isEmpty) = true ↔
      a.oldest = [] := by
    rw [← filterMap_keys_eq_oldest, List.filterMap_eq_nil_iff, List.all_eq_true]
    simp [oldestOf?]
  unfold passIn
  by_cases holdest : a.oldest = []
  · rw [if_pos (hidle.2 holdest), advance_eq, if_pos holdest]
  · rw [if_neg (mt hidle.1 holdest), visit_eq, filterMap_keys_eq_oldest, advance_eq, if_neg holdest,
      mergeAll_eq]
    cases a.oldest.mapM (mergeOne a.current) with
    | error e => rfl
    | ok entries =>
      rw [Except.map, Std.ExtTreeMap.ofList_eq_insertMany_empty]
      rfl

theorem ends_perform (a : SourceAggregator) (c : AggregatorCall) :
    a.Ends c ((a.perform c).map Prod.fst) (a.call c) := by
  have hpass {c : AggregatorCall} (hc : c.isPass) :
      a.performIn a.pending.keys c = ((a.perform c).map Prod.fst, a.call c) := by
    rw [performIn, passIn_keys, call, a.perform_of_isPass hc, advance_eq]
    by_cases hidle : a.oldest = []
    · rw [if_pos hidle, if_pos hidle]
      rfl
    · rw [if_neg hidle, if_neg hidle]
      cases mergeAll a.current a.oldest <;> rfl
  have hends {c : AggregatorCall} (hc : c.isPass) :
      a.Ends c ((a.perform c).map Prod.fst) (a.call c) := by
    have hends := Ends.pass (a := a) hc (.refl a.pending.keys)
    rw [hpass hc] at hends
    exact hends
  cases c with
  | report source w => exact .report source w
  | clear => exact .clear
  | advance | completeBatch => exact hends rfl

/-- A pass that fails, in whatever order, does so at a source at fault and has changed nothing. From
then on every pass fails, in every order, and changes nothing, whatever is reported, until the
aggregator is cleared; and a cleared one has no pass that fails. -/
theorem failure_lasts (h : a.Ends c (.error e) a') :
    a' = a ∧ (∃ source, a.AtFault source e) ∧
      (∀ cs b, a.Reaches cs b → .clear ∉ cs →
        (∀ source, a.queue source <+: b.queue source) ∧ b.current = a.current ∧
          b.lastBatch = a.lastBatch ∧ ∀ d : AggregatorCall, d.isPass →
            (∃ e', b.perform d = .error e') ∧
              ∀ answer b', b.Ends d answer b' → (∃ e', answer = .error e') ∧ b' = b) ∧
      ∀ d answer b, d.isPass → empty.Ends d answer b → answer = .ok none ∧ b = empty := by
  obtain ⟨ha', source, hfault⟩ := h.of_error rfl
  refine ⟨ha', ⟨source, hfault⟩, ?_, ?_⟩
  · intro cs b hreach hcs
    obtain ⟨hfault', hqueue, hcurrent, hbatch⟩ := hfault.of_reaches hreach hcs
    refine ⟨hqueue, hcurrent, hbatch, fun d hd => ⟨?_, fun _ _ => hfault'.pass_fails hd⟩⟩
    obtain ⟨⟨e', hrun⟩, -⟩ := hfault'.pass_fails hd (b.ends_perform d)
    cases hperform : b.perform d with
    | error e' => exact ⟨e', rfl⟩
    | ok x =>
      rw [hperform] at hrun
      cases hrun
  · intro d answer b hd hends
    cases hends with
    | report | clear => cases hd
    | pass kind listed =>
      have hkeys : (empty.pending : Std.ExtTreeMap UInt32 (List SourceWatermarks)).keys = [] := by
        rfl
      rw [hkeys] at listed
      rw [listed.eq_nil]
      exact ⟨rfl, rfl⟩

def askew : SourceAggregator :=
  (empty.report 1 ⟨⟨5⟩, ⟨9⟩, ⟨1⟩⟩).report 2 ⟨⟨7⟩, ⟨3⟩, ⟨1⟩⟩

theorem askew_fails :
    askew.Ends .advance (.error (.watermarkInverted 2 ⟨7⟩ ⟨3⟩)) askew ∧
      ∃ e, (askew.report 2 ⟨⟨1⟩, ⟨8⟩, ⟨2⟩⟩).perform (.completeBatch ⟨4⟩) = .error e := by
  have hends : askew.Ends .advance (.error (.watermarkInverted 2 ⟨7⟩ ⟨3⟩)) askew :=
    askew.ends_perform .advance
  obtain ⟨-, -, hlasts, -⟩ := failure_lasts hends
  obtain ⟨-, -, -, hfails⟩ :=
    hlasts [.report 2 ⟨⟨1⟩, ⟨8⟩, ⟨2⟩⟩] _ (.cons (.report _ _) (.nil _)) (by simp)
  exact ⟨hends, (hfails (.completeBatch ⟨4⟩) rfl).1⟩

end StreamOperator.SourceAggregator
