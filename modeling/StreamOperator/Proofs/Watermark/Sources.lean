import Mathlib.Data.List.DropRight
import Mathlib.Data.List.ReduceOption
import Mathlib.Order.Std
import StreamOperator.Proofs.Collections
import StreamOperator.Proofs.Time.Instant
import StreamOperator.Watermark.Sources

/-! The aggregate of several sources against a log of what went in. The log knows the calls and
which passes returned a snapshot, and from it alone one can tell what each source stands at: the
reports that it gave to the latest unbroken series of passes, taken together. -/

namespace StreamOperator

namespace SourceWatermarks

variable {source : UInt32} {w m : SourceWatermarks} {ws : List SourceWatermarks}

/-- What a source stands at after a series of reports. -/
def total? (ws : List SourceWatermarks) : Option SourceWatermarks := do
  let low ← (ws.map low).max?
  let high ← (ws.map high).max?
  let last ← ws.getLast?
  return ⟨low, high, last.synchronizedTime⟩

theorem total?_eq_none_iff : total? ws = none ↔ ws = [] := by
  cases ws with
  | nil => exact iff_of_true rfl rfl
  | cons first rest =>
    unfold total?
    rw [List.map_cons, List.map_cons, List.max?_cons', List.max?_cons', List.getLast?_cons]
    exact iff_of_false (Option.some_ne_none _) (List.cons_ne_nil first rest)

theorem total?_concat (ws : List SourceWatermarks) (w : SourceWatermarks) :
    total? (ws ++ [w]) = some ((total? ws).elim w fun known =>
      ⟨max known.low w.low, max known.high w.high, w.synchronizedTime⟩) := by
  unfold total?
  rw [List.map_append, List.map_append, List.map_singleton, List.map_singleton, List.max?_concat,
    List.max?_concat, List.getLast?_concat]
  cases ws with
  | nil => rfl
  | cons first rest =>
    rw [List.map_cons, List.map_cons, List.max?_cons', List.max?_cons', List.getLast?_cons]
    rfl

/-- The series that a source may give: at each point its low watermark is not above its high one,
and each report is of a later time. -/
structure Ascending (ws : List SourceWatermarks) : Prop where
  low_le_high : ∀ front w, front <+: ws → total? front = some w → w.low ≤ w.high
  synchronized : (ws.map synchronizedTime).Pairwise (· < ·)

theorem ascending_nil : Ascending [] where
  low_le_high front w hfront h := by
    rw [List.prefix_nil.1 hfront] at h
    cases h
  synchronized := List.Pairwise.nil

theorem exists_last_of_total? (h : total? ws = some m) :
    ∃ front last, ws = front ++ [last] ∧ m.synchronizedTime = last.synchronizedTime := by
  cases ws using List.reverseRecOn with
  | nil => cases h
  | append_singleton front last =>
    rw [total?_concat] at h
    cases h
    refine ⟨front, last, rfl, ?_⟩
    cases total? front <;> rfl

theorem synchronizedTime_le_of_total? (hws : Ascending ws) (h : total? ws = some m) :
    ∀ w ∈ ws, w.synchronizedTime ≤ m.synchronizedTime := by
  intro w hw
  obtain ⟨front, last, rfl, hlast⟩ := exists_last_of_total? h
  have hsync := hws.synchronized
  rw [List.map_append, List.pairwise_append] at hsync
  rw [hlast]
  cases List.mem_append.1 hw with
  | inl hw => exact le_of_lt (hsync.2.2 _ (List.mem_map_of_mem hw) _ (List.mem_singleton_self _))
  | inr hw => exact le_of_eq (congrArg _ (List.mem_singleton.1 hw))

theorem ascending_concat_iff (hws : Ascending ws) :
    Ascending (ws ++ [w]) ↔ (∀ m ∈ total? (ws ++ [w]), m.low ≤ m.high) ∧
      ∀ known ∈ total? ws, known.synchronizedTime < w.synchronizedTime := by
  constructor
  · intro h
    refine ⟨fun m hm => h.low_le_high _ m (List.prefix_refl _) hm, fun known hknown => ?_⟩
    obtain ⟨front, last, rfl, hlast⟩ := exists_last_of_total? hknown
    have hsync := h.synchronized
    rw [List.map_append, List.pairwise_append] at hsync
    rw [hlast]
    exact hsync.2.2 _ (List.mem_map_of_mem (by simp)) _ (List.mem_singleton_self _)
  · intro h
    obtain ⟨hle, hlater⟩ := h
    refine ⟨fun front m hfront hm => ?_, ?_⟩
    · cases List.prefix_concat_iff.1 hfront with
      | inl hfront => exact hle m (hfront ▸ hm)
      | inr hfront => exact hws.low_le_high front m hfront hm
    · rw [List.map_append, List.map_singleton, List.pairwise_append]
      refine ⟨hws.synchronized, List.pairwise_singleton _ _, ?_⟩
      intro t ht t' ht'
      rw [List.mem_singleton.1 ht']
      obtain ⟨x, hx, rfl⟩ := List.mem_map.1 ht
      cases hknown : total? ws with
      | none =>
        rw [total?_eq_none_iff.1 hknown] at hx
        cases hx
      | some known =>
        exact lt_of_le_of_lt (synchronizedTime_le_of_total? hws hknown x hx) (hlater known hknown)

theorem merge_total?_eq_ok_iff :
    merge source (total? ws) w = .ok m ↔ total? (ws ++ [w]) = some m ∧ m.low ≤ m.high ∧
      ∀ known ∈ total? ws, known.synchronizedTime < w.synchronizedTime := by
  rw [total?_concat]
  unfold merge
  cases total? ws with
  | none =>
    dsimp only [Option.elim]
    split
    next hinverted => simpa using fun h => h ▸ hinverted
    next hle => simpa using fun h => h ▸ not_lt.1 hle
  | some known =>
    dsimp only [Option.elim]
    split
    next hinverted =>
      simp only [reduceCtorEq, false_iff, not_and, Option.some.injEq]
      intro h hle
      rw [← h] at hle
      exact absurd hinverted (not_lt.2 hle)
    next hle =>
      split
      next hstalled => simp [hstalled]
      next hlater => simpa [not_le.1 hlater] using fun h => h ▸ not_lt.1 hle

theorem merge_eq_ok (hws : Ascending ws) (h : merge source (total? ws) w = .ok m) :
    total? (ws ++ [w]) = some m ∧ Ascending (ws ++ [w]) := by
  obtain ⟨htotal, hle, hlater⟩ := merge_total?_eq_ok_iff.1 h
  refine ⟨htotal, (ascending_concat_iff hws).2 ⟨fun x hx => ?_, hlater⟩⟩
  rw [htotal] at hx
  cases hx
  exact hle

theorem exists_merge_eq_ok_iff (hws : Ascending ws) :
    (∃ m, merge source (total? ws) w = .ok m) ↔ Ascending (ws ++ [w]) := by
  constructor
  · intro h
    obtain ⟨m, hm⟩ := h
    exact (merge_eq_ok hws hm).2
  · intro h
    obtain ⟨hle, hlater⟩ := (ascending_concat_iff hws).1 h
    have htotal := total?_concat ws w
    exact ⟨_, merge_total?_eq_ok_iff.2 ⟨htotal, hle _ htotal, hlater⟩⟩

end SourceWatermarks

namespace SourceAggregator

variable {a a' : SourceAggregator} {source : UInt32} {w : SourceWatermarks}
  {snapshot known : WatermarkSnapshot}

def queue (a : SourceAggregator) (source : UInt32) : List SourceWatermarks :=
  a.pending.getD source []

theorem queue_report (a : SourceAggregator) (source : UInt32) (w : SourceWatermarks) (s : UInt32) :
    (a.report source w).queue s = if s = source then a.queue s ++ [w] else a.queue s := by
  by_cases h : s = source
  · simp [queue, SourceAggregator.report, h]
  · simp [queue, SourceAggregator.report, h, Ne.symm h, Std.ExtTreeMap.getD_insert]

theorem mem_oldest : (source, w) ∈ a.oldest ↔ (a.queue source).head? = some w := by
  unfold oldest queue
  rw [List.mem_filterMap, Std.ExtTreeMap.getD_eq_getD_getElem?]
  constructor
  · intro h
    obtain ⟨⟨s, reports⟩, hs, h⟩ := h
    obtain ⟨w', hw, heq⟩ := Option.map_eq_some_iff.1 h
    obtain ⟨rfl, rfl⟩ := Prod.mk.inj heq
    rw [Std.ExtTreeMap.mem_toList_iff_getElem?_eq_some.1 hs]
    exact hw
  · intro h
    cases hs : a.pending[source]? with
    | none =>
      rw [hs] at h
      cases h
    | some reports =>
      rw [hs] at h
      refine ⟨(source, reports), Std.ExtTreeMap.mem_toList_iff_getElem?_eq_some.2 hs, ?_⟩
      exact Option.map_eq_some_iff.2 ⟨w, h, rfl⟩

theorem oldest_eq_nil_iff : a.oldest = [] ↔ ∀ source, a.queue source = [] := by
  rw [List.eq_nil_iff_forall_not_mem, Prod.forall]
  refine forall_congr' fun source => ?_
  simp only [mem_oldest]
  rw [← List.head?_eq_none_iff, Option.eq_none_iff_forall_ne_some]

theorem distinct_oldest (a : SourceAggregator) :
    (a.oldest.map Prod.fst).Pairwise fun s t => ¬ compare s t = .eq := by
  unfold oldest
  rw [List.pairwise_map, List.pairwise_filterMap]
  apply Std.ExtTreeMap.distinct_keys_toList.imp
  intro p q hne x hx y hy
  obtain ⟨_, -, rfl⟩ := Option.map_eq_some_iff.1 hx
  obtain ⟨_, -, rfl⟩ := Option.map_eq_some_iff.1 hy
  exact hne

theorem queue_dropOldest (a : SourceAggregator) (source : UInt32) :
    (dropOldest a.pending).getD source [] = (a.queue source).tail := by
  unfold dropOldest queue
  rw [Std.ExtTreeMap.getD_eq_getD_getElem?, Std.ExtTreeMap.getD_eq_getD_getElem?,
    Std.ExtTreeMap.getElem?_filterMap]
  cases a.pending[source]? with
  | none => rfl
  | some reports =>
    by_cases h : reports.tail = [] <;> simp [h]

def mergeOne (known : WatermarkSnapshot) (report : UInt32 × SourceWatermarks) :
    Except InternalError (UInt32 × SourceWatermarks) := do
  let w ← SourceWatermarks.merge report.1 known[report.1]? report.2
  return (report.1, w)

theorem mergeAll_eq (known : WatermarkSnapshot) (reports : List (UInt32 × SourceWatermarks)) :
    mergeAll known reports = (reports.mapM (mergeOne known)).map fun merged => .ofList merged := rfl

theorem mapM_merge_eq_ok {reports merged : List (UInt32 × SourceWatermarks)}
    (h : reports.mapM (mergeOne known) = .ok merged) :
    merged.map Prod.fst = reports.map Prod.fst ∧ ∀ source w, (source, w) ∈ reports →
      ∃ m, SourceWatermarks.merge source known[source]? w = .ok m ∧ (source, m) ∈ merged := by
  induction reports generalizing merged with
  | nil =>
    cases h
    exact ⟨rfl, fun source w hw => by cases hw⟩
  | cons report reports ih =>
    rw [List.mapM_cons, Except.bind_eq_ok_iff] at h
    obtain ⟨_, hfirst, h⟩ := h
    obtain ⟨m, hm, hfirst⟩ := Except.bind_eq_ok_iff.1 hfirst
    obtain ⟨rest, hrest, h⟩ := Except.bind_eq_ok_iff.1 h
    cases hfirst
    cases h
    obtain ⟨hkeys, hmem⟩ := ih hrest
    refine ⟨congrArg (report.1 :: ·) hkeys, fun source w hw => ?_⟩
    cases List.mem_cons.1 hw with
    | inl hw =>
      rw [← hw] at hm ⊢
      exact ⟨m, hm, List.mem_cons_self⟩
    | inr hw =>
      obtain ⟨m', hm', hin⟩ := hmem source w hw
      exact ⟨m', hm', List.mem_cons_of_mem _ hin⟩

theorem mergeAll_oldest (h : mergeAll known a.oldest = .ok snapshot) (source : UInt32) :
    match (a.queue source).head? with
    | none => snapshot[source]? = none
    | some w => ∃ m, SourceWatermarks.merge source known[source]? w = .ok m ∧
        snapshot[source]? = some m := by
  obtain ⟨merged, hmerged, hsnapshot⟩ := Except.bind_eq_ok_iff.1 h
  cases hsnapshot
  obtain ⟨hkeys, hmem⟩ := mapM_merge_eq_ok hmerged
  cases hhead : (a.queue source).head? with
  | none =>
    apply Std.ExtTreeMap.getElem?_ofList_of_contains_eq_false
    rw [hkeys, List.contains_eq_mem, decide_eq_false_iff_not]
    intro hin
    obtain ⟨⟨_, w⟩, hw, rfl⟩ := List.mem_map.1 hin
    rw [mem_oldest.1 hw] at hhead
    cases hhead
  | some w =>
    obtain ⟨m, hm, hin⟩ := hmem source w (mem_oldest.2 hhead)
    have hdistinct := a.distinct_oldest
    rw [← hkeys, List.pairwise_map] at hdistinct
    refine ⟨m, hm, ?_⟩
    exact Std.ExtTreeMap.getElem?_ofList_of_mem Std.ReflCmp.compare_self hdistinct hin

theorem mem_mergeAll_oldest (h : mergeAll known a.oldest = .ok snapshot) (source : UInt32) :
    source ∈ snapshot ↔ a.queue source ≠ [] := by
  have hsource := mergeAll_oldest h source
  rw [Std.ExtTreeMap.mem_iff_isSome_getElem?]
  cases hqueue : a.queue source with
  | nil =>
    rw [hqueue] at hsource
    simp [show snapshot[source]? = none from hsource]
  | cons w rest =>
    rw [hqueue] at hsource
    obtain ⟨m, -, hentry⟩ := hsource
    simp [hentry]

theorem exists_mergeAll_eq_ok_iff :
    (∃ snapshot, mergeAll known a.oldest = .ok snapshot) ↔
      ∀ source w, (a.queue source).head? = some w →
        ∃ m, SourceWatermarks.merge source known[source]? w = .ok m := by
  constructor
  · intro h source w hw
    obtain ⟨snapshot, hsnapshot⟩ := h
    have hsource := mergeAll_oldest hsnapshot source
    rw [hw] at hsource
    obtain ⟨m, hm, -⟩ := hsource
    exact ⟨m, hm⟩
  · intro h
    have hmerge : ∀ report ∈ a.oldest, ∃ merged, mergeOne known report = .ok merged := by
      intro report hreport
      obtain ⟨m, hm⟩ := h report.1 report.2 (mem_oldest.1 hreport)
      exact ⟨(report.1, m), by rw [mergeOne, hm]; rfl⟩
    obtain ⟨merged, hmerged⟩ := List.exists_mapM_eq_ok_iff.2 hmerge
    exact ⟨.ofList merged, by rw [mergeAll_eq, hmerged]; rfl⟩

end SourceAggregator

inductive AggregatorCall
  | report (source : UInt32) (w : SourceWatermarks)
  | advance
  | completeBatch (time : Instant)
  | clear

namespace AggregatorCall

def isPass : AggregatorCall → Bool
  | .advance | .completeBatch _ => true
  | .report _ _ | .clear => false

def batch? : AggregatorCall → Option Instant
  | .completeBatch time => some time
  | _ => none

end AggregatorCall

namespace SourceAggregator

def perform (a : SourceAggregator) :
    AggregatorCall → Except InternalError (Option WatermarkSnapshot × SourceAggregator)
  | .report source w => .ok (none, a.report source w)
  | .advance => a.advance
  | .completeBatch time => a.completeBatch time
  | .clear => .ok (none, empty)

/-- The aggregator after an operation; one that fails leaves it as it was. -/
def call (a : SourceAggregator) (c : AggregatorCall) : SourceAggregator :=
  match a.perform c with
  | .ok (_, a) => a
  | .error _ => a

def snapshot? (a : SourceAggregator) (c : AggregatorCall) : Option WatermarkSnapshot :=
  match a.perform c with
  | .ok (snapshot?, _) => snapshot?
  | .error _ => none

theorem advance_eq (a : SourceAggregator) :
    a.advance =
      if a.oldest = [] then .ok (none, a)
      else (mergeAll a.current a.oldest).map fun merged =>
        (some merged, ⟨dropOldest a.pending, merged, a.lastBatch⟩) := by
  unfold advance
  cases a.oldest with
  | nil => rfl
  | cons report reports =>
    rw [if_neg (List.cons_ne_nil report reports)]
    dsimp only
    cases mergeAll a.current (report :: reports) <;> rfl

theorem perform_of_isPass (a : SourceAggregator) {c : AggregatorCall} (hc : c.isPass) :
    a.perform c =
      if a.oldest = [] then .ok (none, a)
      else (mergeAll a.current a.oldest).map fun merged =>
        (some merged, ⟨dropOldest a.pending, merged, c.batch?.getD a.lastBatch⟩) := by
  cases c with
  | report | clear => cases hc
  | advance => exact a.advance_eq
  | completeBatch time =>
    rw [perform, completeBatch, advance_eq]
    by_cases hidle : a.oldest = []
    · rw [if_pos hidle, if_pos hidle]
    · rw [if_neg hidle, if_neg hidle]
      cases mergeAll a.current a.oldest <;> rfl

theorem perform_eq_none_iff (a : SourceAggregator) {c : AggregatorCall} (hc : c.isPass) :
    (a.perform c).map Prod.fst = .ok none ↔ ∀ source, a.queue source = [] := by
  rw [a.perform_of_isPass hc, ← oldest_eq_nil_iff]
  by_cases hidle : a.oldest = []
  · exact iff_of_true (by rw [if_pos hidle]; rfl) hidle
  · refine iff_of_false ?_ hidle
    rw [if_neg hidle]
    cases mergeAll a.current a.oldest <;> simp [Except.map]

theorem isSome_snapshot?_iff (a : SourceAggregator) {c : AggregatorCall} (hc : c.isPass) :
    (a.snapshot? c).isSome = true ↔
      (∃ source, a.queue source ≠ []) ∧ ∃ merged, mergeAll a.current a.oldest = .ok merged := by
  rw [← not_forall, ← oldest_eq_nil_iff, snapshot?, a.perform_of_isPass hc]
  by_cases hidle : a.oldest = []
  · simp [hidle]
  · rw [if_neg hidle]
    cases mergeAll a.current a.oldest <;> simp [Except.map, hidle]

theorem call_pass_cases (a : SourceAggregator) {c : AggregatorCall} (hc : c.isPass) :
    a.snapshot? c = none ∧ a.call c = a ∨
      ∃ snapshot, mergeAll a.current a.oldest = .ok snapshot ∧ a.snapshot? c = some snapshot ∧
        a.call c = ⟨dropOldest a.pending, snapshot, c.batch?.getD a.lastBatch⟩ := by
  unfold call snapshot?
  rw [a.perform_of_isPass hc]
  by_cases hidle : a.oldest = []
  · rw [if_pos hidle]
    exact Or.inl ⟨rfl, rfl⟩
  · rw [if_neg hidle]
    cases mergeAll a.current a.oldest with
    | error e => exact Or.inl ⟨rfl, rfl⟩
    | ok snapshot => exact Or.inr ⟨snapshot, rfl, rfl, rfl⟩

end SourceAggregator

/-- What went in since the aggregator was last cleared: the reports of each source, and what each
pass that returned a snapshot took of them. -/
structure SourceLog where
  reported : UInt32 → List SourceWatermarks
  passes : List (UInt32 → Option SourceWatermarks)
  lastBatch : Instant

namespace SourceLog

def empty : SourceLog := ⟨fun _ => [], [], .negInf⟩

def consumed (log : SourceLog) (source : UInt32) : List SourceWatermarks :=
  (log.passes.map (· source)).reduceOption

def waiting (log : SourceLog) (source : UInt32) : List SourceWatermarks :=
  (log.reported source).drop (log.consumed source).length

/-- What a source gave to the latest passes, as far back as it took part in each. -/
def block (log : SourceLog) (source : UInt32) : List SourceWatermarks :=
  ((log.passes.map (· source)).rtakeWhile Option.isSome).reduceOption

/-- A pass takes of each source the report that has waited longest. -/
def pass (log : SourceLog) : SourceLog :=
  { log with passes := log.passes ++ [fun source => (log.waiting source).head?] }

def call (log : SourceLog) (returned : Bool) (c : AggregatorCall) : SourceLog :=
  match c with
  | .report source w =>
    { log with reported := fun s => if s = source then log.reported s ++ [w] else log.reported s }
  | .clear => empty
  | .advance | .completeBatch _ =>
    if returned then { log.pass with lastBatch := c.batch?.getD log.lastBatch } else log

theorem call_of_isPass (log : SourceLog) (returned : Bool) {c : AggregatorCall} (hc : c.isPass) :
    log.call returned c =
      if returned then { log.pass with lastBatch := c.batch?.getD log.lastBatch } else log := by
  cases c with
  | report | clear => cases hc
  | advance | completeBatch => rfl

theorem consumed_pass (log : SourceLog) (source : UInt32) :
    log.pass.consumed source = log.consumed source ++ (log.waiting source).head?.toList := by
  rw [consumed, pass, List.map_append, List.map_singleton, List.reduceOption_append]
  dsimp only
  cases (log.waiting source).head? <;> rfl

theorem block_pass (log : SourceLog) (source : UInt32) :
    log.pass.block source = (log.waiting source).head?.elim [] (log.block source ++ [·]) := by
  rw [block, pass, List.map_append, List.map_singleton]
  dsimp only
  cases (log.waiting source).head? with
  | none =>
    rw [List.rtakeWhile_concat]
    rfl
  | some w =>
    rw [List.rtakeWhile_concat, if_pos Option.isSome_some, List.reduceOption_append]
    rfl

end SourceLog

namespace SourceAggregator

open SourceWatermarks (total? Ascending)

variable {a a' : SourceAggregator} {log : SourceLog} {snapshot : WatermarkSnapshot}

structure Follows (a : SourceAggregator) (log : SourceLog) : Prop where
  reported : ∀ source, log.reported source = log.consumed source ++ a.queue source
  current : ∀ source, a.current[source]? = total? (log.block source)
  ascending : ∀ source, Ascending (log.block source)
  lastBatch : a.lastBatch = log.lastBatch

theorem follows_empty : empty.Follows .empty where
  reported source := by simp [SourceLog.empty, SourceLog.consumed, empty, queue]
  current source := by simp [SourceLog.empty, SourceLog.block, empty, total?]
  ascending source := SourceWatermarks.ascending_nil
  lastBatch := rfl

theorem Follows.waiting_eq (h : a.Follows log) (source : UInt32) :
    log.waiting source = a.queue source := by
  rw [SourceLog.waiting, h.reported, List.drop_left]

theorem Follows.report (h : a.Follows log) (source : UInt32) (w : SourceWatermarks)
    (returned : Bool) : (a.report source w).Follows (log.call returned (.report source w)) where
  reported s := by
    show (if s = source then log.reported s ++ [w] else log.reported s) = log.consumed s ++ _
    rw [queue_report, h.reported]
    by_cases hs : s = source
    · rw [if_pos hs, if_pos hs, List.append_assoc]
    · rw [if_neg hs, if_neg hs]
  current := h.current
  ascending := h.ascending
  lastBatch := h.lastBatch

theorem Follows.pass (h : a.Follows log) (hmerged : mergeAll a.current a.oldest = .ok snapshot)
    (batch : Option Instant) :
    Follows ⟨dropOldest a.pending, snapshot, batch.getD a.lastBatch⟩
      { log.pass with lastBatch := batch.getD log.lastBatch } := by
  have hblock (source : UInt32) :
      snapshot[source]? = total? (log.pass.block source) ∧ Ascending (log.pass.block source) := by
    have hsource := mergeAll_oldest hmerged source
    rw [SourceLog.block_pass, h.waiting_eq]
    cases hhead : (a.queue source).head? with
    | none =>
      rw [hhead] at hsource
      exact ⟨hsource, SourceWatermarks.ascending_nil⟩
    | some w =>
      rw [hhead] at hsource
      obtain ⟨m, hm, hentry⟩ := hsource
      rw [h.current] at hm
      obtain ⟨htotal, hascending⟩ := SourceWatermarks.merge_eq_ok (h.ascending source) hm
      exact ⟨hentry.trans htotal.symm, hascending⟩
  refine ⟨fun source => ?_, fun source => (hblock source).1, fun source => (hblock source).2, ?_⟩
  · show log.reported source = log.pass.consumed source ++ (dropOldest a.pending).getD source []
    rw [SourceLog.consumed_pass, h.waiting_eq, queue_dropOldest, h.reported, List.append_assoc]
    cases a.queue source <;> rfl
  · rw [h.lastBatch]

theorem Follows.call (h : a.Follows log) (c : AggregatorCall) :
    (a.call c).Follows (log.call (a.snapshot? c).isSome c) := by
  by_cases hc : c.isPass
  · rw [SourceLog.call_of_isPass log _ hc]
    rcases a.call_pass_cases hc with ⟨hnone, hcall⟩ | ⟨snapshot, hmerged, hsome, hcall⟩
    · rw [hnone, hcall]
      exact h
    · rw [hsome, hcall]
      exact h.pass hmerged _
  · cases c with
    | report source w => exact h.report source w _
    | clear => exact follows_empty
    | advance | completeBatch => exact absurd rfl hc

def ofCalls (cs : List AggregatorCall) : SourceAggregator × SourceLog :=
  cs.foldl (fun (a, log) c => (a.call c, log.call (a.snapshot? c).isSome c)) (empty, .empty)

theorem follows_ofCalls (cs : List AggregatorCall) : (ofCalls cs).1.Follows (ofCalls cs).2 := by
  induction cs using List.reverseRecOn with
  | nil => exact follows_empty
  | append_singleton cs c ih =>
    rw [ofCalls, List.foldl_append]
    exact ih.call c

theorem snapshot_of_pass (a : SourceAggregator) {c : AggregatorCall} (hc : c.isPass) :
    match a.snapshot? c with
    | none => a.call c = a
    | some snapshot => (a.call c).current = snapshot ∧
        ∀ source, source ∈ snapshot ↔ a.queue source ≠ [] := by
  rcases a.call_pass_cases hc with ⟨hnone, hcall⟩ | ⟨snapshot, hmerged, hsome, hcall⟩
  · rw [hnone]
    exact hcall
  · rw [hsome, hcall]
    exact ⟨rfl, mem_mergeAll_oldest hmerged⟩

/-- A pass returns a snapshot just if a report is queued and no oldest report breaks a rule. -/
theorem Follows.isSome_snapshot?_iff (h : a.Follows log) {c : AggregatorCall} (hc : c.isPass) :
    (a.snapshot? c).isSome = true ↔ (∃ source, a.queue source ≠ []) ∧
      ∀ source w, (a.queue source).head? = some w → Ascending (log.block source ++ [w]) := by
  have hmerge (source : UInt32) (w : SourceWatermarks) :
      (∃ m, SourceWatermarks.merge source a.current[source]? w = .ok m) ↔
        Ascending (log.block source ++ [w]) := by
    rw [h.current]
    exact SourceWatermarks.exists_merge_eq_ok_iff (h.ascending source)
  rw [a.isSome_snapshot?_iff hc, exists_mergeAll_eq_ok_iff]
  simp only [hmerge]

/-- After any operations the reports of a source have been taken in the order in which they came,
its entry sums up what it gave to its latest unbroken series of passes, which ascends, and the time
of the last batch is the one of the log. A pass then returns a snapshot just if a report is queued
and each oldest report goes on with the series of its source, and it returns none without an error
just if nothing is queued. -/
theorem aggregate_of_calls (cs : List AggregatorCall) :
    let a := (ofCalls cs).1
    let log := (ofCalls cs).2
    (∀ source, log.reported source = log.consumed source ++ a.queue source) ∧
    (∀ source, a.current[source]? = total? (log.block source)) ∧
    (∀ source, Ascending (log.block source)) ∧
    a.lastBatch = log.lastBatch ∧
    ∀ c : AggregatorCall, c.isPass →
      ((a.snapshot? c).isSome = true ↔ (∃ source, a.queue source ≠ []) ∧
        ∀ source w, (a.queue source).head? = some w → Ascending (log.block source ++ [w])) ∧
      ((a.perform c).map Prod.fst = .ok none ↔ ∀ source, a.queue source = []) ∧
      match a.snapshot? c with
      | none => a.call c = a
      | some snapshot => (a.call c).current = snapshot ∧
          ∀ source, source ∈ snapshot ↔ a.queue source ≠ [] := by
  intro a log
  have h : a.Follows log := follows_ofCalls cs
  refine ⟨h.reported, h.current, h.ascending, h.lastBatch, fun c hc => ⟨?_, ?_, ?_⟩⟩
  · exact h.isSome_snapshot?_iff hc
  · exact a.perform_eq_none_iff hc
  · exact a.snapshot_of_pass hc

/-- The second source takes part in the first pass only. -/
def staggered : List AggregatorCall :=
  [.report 1 ⟨⟨10⟩, ⟨20⟩, ⟨1⟩⟩, .report 2 ⟨⟨5⟩, ⟨8⟩, ⟨1⟩⟩, .advance, .report 1 ⟨⟨7⟩, ⟨30⟩, ⟨2⟩⟩]

theorem staggered_advances :
    ∃ snapshot, (ofCalls staggered).1.snapshot? (.completeBatch ⟨4⟩) = some snapshot ∧
      snapshot.toList = [(1, ⟨⟨10⟩, ⟨30⟩, ⟨2⟩⟩)] ∧
      ((ofCalls staggered).1.call (.completeBatch ⟨4⟩)).current = snapshot := by
  obtain ⟨-, -, -, -, hpass⟩ := aggregate_of_calls staggered
  obtain ⟨-, -, hpass⟩ := hpass (.completeBatch ⟨4⟩) rfl
  have hrun : ((ofCalls staggered).1.snapshot? (.completeBatch ⟨4⟩)).map (·.toList) =
      some [(1, ⟨⟨10⟩, ⟨30⟩, ⟨2⟩⟩)] := by decide +kernel
  cases hsnapshot : (ofCalls staggered).1.snapshot? (.completeBatch ⟨4⟩) with
  | none =>
    rw [hsnapshot] at hrun
    cases hrun
  | some snapshot =>
    rw [hsnapshot] at hpass hrun
    exact ⟨snapshot, rfl, Option.some.inj hrun, hpass.1⟩

end SourceAggregator

end StreamOperator
