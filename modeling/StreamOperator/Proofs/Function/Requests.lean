import StreamOperator.Proofs.Bundle.Keys
import StreamOperator.Proofs.Function.Turns
import StreamOperator.Proofs.Output

/-! What comes of requests. A record tells in which call each request was asked. So it tells what was
emitted under which tag and which cells were written, and nothing else is staged. What is done to
timers and cells is done under the key of a call in the record. -/

namespace StreamOperator

variable {ι ο α μ ρ σ : Type}

def Request.emission? (main : String) (frame : Option Frame) :
    (q : Request ι ο) → q.Reply → Option (String × Element ο)
  | .output value, .ok _ => frame.map fun f => (main, f.withValue value)
  | .outputAt value time, .ok _ =>
    frame.map fun f => (main, { f.withValue value with timestamp := time })
  | .outputWhole e, _ => some (main, e)
  | .outputTo tag value, .ok _ => frame.map fun f => (tag, f.withValue value)
  | _, _ => none

theorem Request.exists_key_of_cellWrite? {q : Request ι ο} {reply : q.Reply} {operator : String}
    {key : Option EncodedKey} {w : CellWrite} (h : q.cellWrite? operator key reply = some w) :
    w.1.operator = operator ∧ ∃ k, key = some k ∧ w.1.key = k.bytes := by
  cases q with
  | writeState space tag content =>
    cases reply with
    | error e => cases h
    | ok _ =>
      obtain ⟨k, hk, rfl⟩ := Option.map_eq_some_iff.1 h
      exact ⟨rfl, k, hk, rfl⟩
  | clearState space tag =>
    cases reply with
    | error e => cases h
    | ok _ =>
      obtain ⟨k, hk, rfl⟩ := Option.map_eq_some_iff.1 h
      exact ⟨rfl, k, hk, rfl⟩
  | _ => cases h

namespace Event

def gather (read : Occasion ι → Option EncodedKey → (q : Request ι ο) → q.Reply → Option α) :
    Option (Occasion ι × Option EncodedKey) × List α → Event ι ο →
      Option (Occasion ι × Option EncodedKey) × List α
  | (_, found), called occasion key => (some (occasion, key), found)
  | (some (occasion, key), found), asked q reply =>
    (some (occasion, key), found ++ (read occasion key q reply).toList)
  | (none, found), asked _ _ => (none, found)
  | (call, found), ended _ => (call, found)

/-- What came of the requests in a record, each read with the call it was asked in. -/
def collect (read : Occasion ι → Option EncodedKey → (q : Request ι ο) → q.Reply → Option α)
    (log : List (Event ι ο)) : List α := (log.foldl (gather read) (none, [])).2

def emissions (main : String) (log : List (Event ι ο)) : List (String × Element ο) :=
  collect (fun occasion _ q reply => q.emission? main occasion.frame? reply) log

def cellWrites (operator : String) (log : List (Event ι ο)) : List CellWrite :=
  collect (fun _ key q reply => q.cellWrite? operator key reply) log

def result? (read : (q : Request ι ο) → q.Reply → Option α) : Event ι ο → Option α
  | asked q reply => read q reply
  | called .. => none
  | ended _ => none

section Collect

variable {read : Occasion ι → Option EncodedKey → (q : Request ι ο) → q.Reply → Option α}
  {log : List (Event ι ο)}

/-- Something came of a request in the record, asked in a call in the record or in the one that is
open before it. -/
def Gathers (read : Occasion ι → Option EncodedKey → (q : Request ι ο) → q.Reply → Option α)
    (call : Option (Occasion ι × Option EncodedKey)) (log : List (Event ι ο)) (x : α) : Prop :=
  ∃ occasion key q reply, (call = some (occasion, key) ∨ called occasion key ∈ log) ∧
    asked q reply ∈ log ∧ read occasion key q reply = some x

theorem Gathers.cons {call : Option (Occasion ι × Option EncodedKey)} {x : α}
    (h : Gathers read call log x) (e : Event ι ο) : Gathers read call (e :: log) x := by
  obtain ⟨occasion, key, q, reply, hcall, hasked, hread⟩ := h
  exact ⟨occasion, key, q, reply, hcall.imp_right (List.mem_cons_of_mem e),
    List.mem_cons_of_mem e hasked, hread⟩

theorem mem_foldl_gather {x : α} {call : Option (Occasion ι × Option EncodedKey)} {found : List α}
    (h : x ∈ (log.foldl (gather read) (call, found)).2) : x ∈ found ∨ Gathers read call log x := by
  induction log generalizing call found with
  | nil => exact .inl h
  | cons e log ih =>
    cases e with
    | called occasion key =>
      -- From here on requests are read with this call, which is in the record.
      refine (ih h).imp_right fun ⟨occasion', key', q, reply, hcall, hasked, hread⟩ => ?_
      have hcalled : called occasion' key' ∈ called occasion key :: log := by
        cases hcall with
        | inl heq =>
          cases heq
          exact List.mem_cons_self
        | inr hmem => exact List.mem_cons_of_mem _ hmem
      exact ⟨occasion', key', q, reply, .inr hcalled, List.mem_cons_of_mem _ hasked, hread⟩
    | ended result =>
      cases call with
      | none => exact (ih h).imp_right (·.cons _)
      | some call => exact (ih h).imp_right (·.cons _)
    | asked q reply =>
      cases call with
      | none => exact (ih h).imp_right (·.cons _)
      | some call =>
        cases ih h with
        | inl hfound =>
          refine (List.mem_append.1 hfound).imp_right fun hnew => ?_
          exact ⟨call.1, call.2, q, reply, .inl rfl, List.mem_cons_self, Option.mem_toList.1 hnew⟩
        | inr hlater => exact .inr (hlater.cons _)

theorem exists_of_mem_collect {x : α} (h : x ∈ collect read log) :
    ∃ occasion key q reply, called occasion key ∈ log ∧ asked q reply ∈ log ∧
      read occasion key q reply = some x := by
  obtain ⟨occasion, key, q, reply, hcall, hasked, hread⟩ := (mem_foldl_gather h).resolve_left nofun
  exact ⟨occasion, key, q, reply, hcall.resolve_left nofun, hasked, hread⟩

theorem timerOps_eq_collect (log : List (Event ι ο)) :
    timerOps log = collect (fun _ key q reply => q.timerOp? key reply) log := by
  have hscan : log.foldl scan (none, []) =
      ((log.foldl (gather fun _ key q reply => q.timerOp? key reply) (none, [])).1.bind (·.2),
        collect (fun _ key q reply => q.timerOp? key reply) log) := by
    unfold collect
    induction log using List.reverseRecOn with
    | nil => rfl
    | append_singleton log e ih =>
      rw [List.foldl_append, List.foldl_append, ih]
      rcases log.foldl (gather _) (none, []) with ⟨_ | ⟨occasion, key⟩, found⟩ <;> cases e <;>
        simp [scan, gather]
  exact congrArg Prod.snd hscan

end Collect

def Under (key : EncodedKey) (log : List (Event ι ο)) : Prop :=
  ∃ occasion, called occasion (some key) ∈ log

theorem under_of_mem_timerOps {log : List (Event ι ο)} {op : TimerOp} (h : op ∈ timerOps log) :
    Under op.key log := by
  rw [timerOps_eq_collect] at h
  obtain ⟨occasion, key, q, reply, hcalled, -, hop⟩ := exists_of_mem_collect h
  cases key with
  | none =>
    rw [Request.timerOp?_none] at hop
    cases hop
  | some key =>
    rw [← Context.key_of_timerOp? hop] at hcalled
    exact ⟨occasion, hcalled⟩

theorem under_of_mem_cellWrites {operator : String} {log : List (Event ι ο)} {w : CellWrite}
    (h : w ∈ cellWrites operator log) :
    w.1.operator = operator ∧ ∃ key, Under key log ∧ w.1.key = key.bytes := by
  obtain ⟨occasion, key, q, reply, hcalled, -, hwrite⟩ := exists_of_mem_collect h
  obtain ⟨hoperator, k, rfl, hkey⟩ := Request.exists_key_of_cellWrite? hwrite
  exact ⟨hoperator, k, ⟨occasion, hcalled⟩, hkey⟩

/-- What is staged besides timers is what came of the requests in a record. -/
structure Describes (table : OutputTable) (operator : String) (log : List (Event ι ο))
    (s : Staging ι ο) : Prop where
  outputs : s.outputs = table.resolve (emissions table.main log)
  writes : s.writes = Staging.stageWrites ∅ (cellWrites operator log)

end Event

namespace Staging

@[simp] theorem stageWrites_nil (writes : Std.ExtTreeMap Address (Option Bytes)) :
    stageWrites writes [] = writes := rfl

theorem stageWrites_append (writes : Std.ExtTreeMap Address (Option Bytes))
    (xs ys : List CellWrite) :
    stageWrites writes (xs ++ ys) = stageWrites (stageWrites writes xs) ys := List.foldl_append

theorem mem_stageWrites {ws : List CellWrite} {a : Address} (h : a ∈ stageWrites ∅ ws) :
    ∃ w ∈ ws, w.1 = a := by
  induction ws using List.reverseRecOn with
  | nil => simp at h
  | append_singleton ws w ih =>
    rw [stageWrites_append] at h
    rcases Std.ExtTreeMap.mem_insert.1 h with heq | h
    · exact ⟨w, by simp, Std.LawfulEqOrd.compare_eq_iff_eq.1 heq⟩
    · obtain ⟨w', hw', ha⟩ := ih h
      exact ⟨w', by simp [hw'], ha⟩

end Staging

namespace Context

variable [SideInputReader ρ] [StateStore σ]

theorem outputs_answer (c : Context ρ σ) (s : Staging ι ο) (q : Request ι ο) :
    (c.answer s q).2.outputs = s.outputs ++
      c.outputs.resolve (q.emission? c.outputs.main c.current (c.answer s q).1).toList := by
  have hmain : c.outputs.channel? c.outputs.main = some .main := if_pos rfl
  cases q <;>
    simp only [answer, withFrame, withKey, withCell, readCell, cellContent, refuse,
      Staging.fail, Staging.emit, Staging.addTimerOp, Staging.write, Staging.addResidual] <;>
    (repeat' split) <;>
    simp_all [Request.emission?, OutputTable.resolve, Staging.outputs]

/-- A part of the staging that each answer changes by what comes of the request is changed by what
comes of them all. -/
theorem run_eq_of_answer {β : Type} (part : Staging ι ο → β) (act : β → List α → β)
    {read : (q : Request ι ο) → q.Reply → Option α} {c : Context ρ σ} (hnil : ∀ b, act b [] = b)
    (happend : ∀ b xs ys, act b (xs ++ ys) = act (act b xs) ys)
    (hanswer : ∀ s q, part (c.answer s q).2 = act (part s) (read q (c.answer s q).1).toList)
    {γ : Type} (s : Staging ι ο) (x : Interaction ι ο γ) :
    part (c.run s x).2 = act (part s) ((c.events s x).filterMap (Event.result? read)) := by
  induction x generalizing s with
  | done a => exact (hnil _).symm
  | ask q next ih =>
    have hhead : (c.events s (.ask q next)).filterMap (Event.result? read) =
        (read q (c.answer s q).1).toList ++
          (c.events (c.answer s q).2 (next (c.answer s q).1)).filterMap (Event.result? read) := by
      rw [events, List.filterMap_cons]
      cases hread : read q (c.answer s q).1 <;> simp [Event.result?, hread]
    rw [hhead, happend, ← hanswer]
    exact ih _ _

end Context

namespace Turn

variable [SideInputReader ρ] [StateStore σ] {f : UserFunction μ ι ο} {t : Turn μ ι ο ρ σ}
  {log : List (Event ι ο)}

theorem collect_append_events
    (read : Occasion ι → Option EncodedKey → (q : Request ι ο) → q.Reply → Option α) :
    Event.collect read (log ++ t.events f) = Event.collect read log ++
      (t.asked f).filterMap (Event.result? (read t.occasion t.context.key)) := by
  have hasked (x : Interaction ι ο (Outcome μ)) (s : Staging ι ο) (found : List α) :
      (t.context.events s x).foldl (Event.gather read) (some (t.occasion, t.context.key), found) =
        (some (t.occasion, t.context.key), found ++
          (t.context.events s x).filterMap (Event.result? (read t.occasion t.context.key))) := by
    induction x generalizing s found with
    | done a => simp [Context.events]
    | ask q next ih =>
      simp only [Context.events, List.foldl_cons, Event.gather, ih, List.filterMap_cons,
        Event.result?]
      cases read t.occasion t.context.key q (t.context.answer s q).1 <;> simp
  unfold Event.collect events asked
  rw [List.foldl_append]
  rcases log.foldl (Event.gather read) (none, []) with ⟨call, found⟩
  simp only [List.cons_append, List.foldl_cons, List.foldl_append, Event.gather, hasked,
    List.foldl_nil]

theorem describes (hframe : t.context.current = t.occasion.frame?)
    (h : Event.Describes t.context.outputs t.context.operator log t.staged) :
    Event.Describes t.context.outputs t.context.operator (log ++ t.events f) (t.outcome f).2 where
  outputs := by
    have hrun := Context.run_eq_of_answer Staging.outputs
      (fun outputs xs => outputs ++ t.context.outputs.resolve xs) (by simp [OutputTable.resolve])
      (by simp) t.context.outputs_answer t.staged (f.body t.occasion t.memory)
    unfold Event.emissions
    rw [collect_append_events, OutputTable.resolve_append, outcome, hrun, h.outputs, hframe]
    rfl
  writes := by
    have hrun := Context.run_eq_of_answer Staging.writes Staging.stageWrites
      Staging.stageWrites_nil Staging.stageWrites_append t.context.writes_answer t.staged
      (f.body t.occasion t.memory)
    unfold Event.cellWrites
    rw [collect_append_events, Staging.stageWrites_append, outcome, hrun, h.writes]
    rfl

end Turn

end StreamOperator
