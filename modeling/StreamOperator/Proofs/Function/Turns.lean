import StreamOperator.Proofs.Function.Order

/-! The calls of a function one by one. A turn is one call, with all that it depends on. It fails by
the first request in it that is refused, and only where none is, by the error that the function
returns. -/

namespace StreamOperator

variable {ι ο α μ ρ σ : Type}

namespace Occasion

def stage : Occasion ι → Stage
  | setup => .setup
  | startBundle => .startBundle
  | element _ => .processElement
  | timer _ => .onTimer
  | finishBundle => .finishBundle
  | teardown => .teardown

def frame? : Occasion ι → Option Frame
  | element piece => some piece.frame
  | timer t => some t.frame
  | setup | startBundle | finishBundle | teardown => none

end Occasion

/-- What a function does when it is called. Setting up and tearing down ask nothing. -/
def UserFunction.body (f : UserFunction μ ι ο) : Occasion ι → Callback μ ι ο
  | .setup => fun memory => .done (f.setup memory)
  | .startBundle => f.startBundle
  | .element piece => f.processElement piece
  | .timer t => f.onTimer t
  | .finishBundle => f.finishBundle
  | .teardown => fun memory => .done (f.teardown memory)

namespace Context

def missingFrame (c : Context ρ σ) (op : ContextOperation) : Option ExecutionError :=
  if c.current.isSome then none else some (.internal (.noCurrentElement op))

def missingKey (c : Context ρ σ) (op : ContextOperation) : Option ExecutionError :=
  if c.key.isSome then none else some (.internal (.noCurrentKey op))

def missingStore (c : Context ρ σ) : Option ExecutionError :=
  if c.store.isSome then none else some (.state (.storage "no state store configured"))

def missingTag (c : Context ρ σ) (tag : String) : Option ExecutionError :=
  if (c.outputs.channel? tag).isSome then none else some (.internal (.unboundOutputTag tag))

def missingView (c : Context ρ σ) (index : Nat) : Option ExecutionError :=
  if index < c.views.length then none
  else some (.internal (.unknownSideInput index c.views.length))

def unreadable [StateStore σ] (c : Context ρ σ) (s : Staging ι ο) (space : Namespace) (tag : String)
    (accepts : Bytes → Bool) : Option ExecutionError := do
  let key ← c.key
  let store ← c.store
  match cellContent store ⟨c.operator, key.bytes, space, tag⟩ s with
  | .error e => some (.state e)
  | .ok none => none
  | .ok (some content) => if accepts content then none else some (.state .serialization)

/-- Why a request is refused, by the first check that it does not pass. -/
def refusal? [StateStore σ] (c : Context ρ σ) (s : Staging ι ο) :
    Request ι ο → Option ExecutionError
  | .output _ => c.missingFrame .output
  | .outputAt .. => c.missingFrame .outputAt
  | .outputTo tag _ => (c.missingTag tag).or (c.missingFrame .outputTo)
  | .sideValues index => c.missingView index
  | .processingTime => some (.unsupported (.clock .processing))
  | .setTimer timer =>
    if timer.domain = .event then c.missingKey .setTimer
    else some (.unsupported (.timerDomain timer.domain))
  | .deleteTimer _ => c.missingKey .deleteTimer
  | .timerState _ => c.missingKey .timerState
  | .readState space tag accepts =>
    ((c.missingKey .readState).or c.missingStore).or (c.unreadable s space tag accepts)
  | .writeState _ _ content =>
    ((c.missingKey .writeState).or c.missingStore).or
      (if content.isSome then none else some (.state .serialization))
  | .clearState .. => (c.missingKey .clearState).or c.missingStore
  | .resumeLater .. => c.missingFrame .resumeLater
  | .abort e => some e
  | .outputWhole _ | .timestamp | .window | .currentKey | .inputWatermark | .budget => none

variable [SideInputReader ρ] [StateStore σ]

theorem refusal?_answer (c : Context ρ σ) (s : Staging ι ο) (q : Request ι ο) :
    q.refusal? (c.answer s q).1 = c.refusal? s q := by
  cases q <;>
    simp only [answer, withFrame, withKey, withCell, readCell, refuse, Request.refusal?,
      refusal?, missingFrame, missingKey, missingStore, missingTag, missingView, unreadable] <;>
    (repeat' split) <;> simp_all [Request.refusal?.error?]

def stagedAfter (c : Context ρ σ) (s : Staging ι ο) : List (Event ι ο) → Staging ι ο
  | .asked q _ :: log => c.stagedAfter (c.answer s q).2 log
  | _ => s

theorem reply_of_events {c : Context ρ σ} {s : Staging ι ο} {x : Interaction ι ο α}
    {done rest : List (Event ι ο)} {q : Request ι ο} {reply : q.Reply}
    (h : c.events s x = done ++ .asked q reply :: rest) :
    reply = (c.answer (c.stagedAfter s done) q).1 := by
  induction x generalizing s done with
  | done a => simp [events] at h
  | ask q' next ih =>
    cases done with
    | nil =>
      cases h
      rfl
    | cons e done =>
      obtain ⟨rfl, hrest⟩ := List.cons.inj h
      show reply = (c.answer (c.stagedAfter (c.answer s q').2 done) q).1
      exact ih _ hrest

end Context

/-- One call of a function: what it is for, its surroundings, what the bundle staged before it, and
the memory it goes on from. -/
structure Turn (μ ι ο ρ σ : Type) where
  occasion : Occasion ι
  context : Context ρ σ
  staged : Staging ι ο
  memory : μ

namespace Turn

variable [SideInputReader ρ] [StateStore σ]

def outcome (f : UserFunction μ ι ο) (t : Turn μ ι ο ρ σ) : Outcome μ × Staging ι ο :=
  t.context.run t.staged (f.body t.occasion t.memory)

def asked (f : UserFunction μ ι ο) (t : Turn μ ι ο ρ σ) : List (Event ι ο) :=
  t.context.events t.staged (f.body t.occasion t.memory)

def events (f : UserFunction μ ι ο) (t : Turn μ ι ο ρ σ) : List (Event ι ο) :=
  .called t.occasion t.context.key :: t.asked f ++ [.ended (t.outcome f).1.result]

def refusal? (f : UserFunction μ ι ο) (t : Turn μ ι ο ρ σ) : Option ExecutionError :=
  (t.asked f).findSome? Event.refusal?

def error? (f : UserFunction μ ι ο) (t : Turn μ ι ο ρ σ) : Option ExecutionError :=
  (t.refusal? f).or
    (match (t.outcome f).1.result with
    | .ok () => none
    | .error cause => some (.user t.occasion.stage cause))

variable {f : UserFunction μ ι ο} {t : Turn μ ι ο ρ σ}

theorem error?_of_refusal {e : ExecutionError} (h : t.refusal? f = some e) :
    t.error? f = some e := by
  rw [error?, h, Option.some_or]

theorem error?_of_result {cause : String} (h : t.refusal? f = none)
    (hresult : (t.outcome f).1.result = .error cause) :
    t.error? f = some (.user t.occasion.stage cause) := by
  rw [error?, h, hresult, Option.none_or]

theorem error?_of_ok (h : t.refusal? f = none) (hresult : (t.outcome f).1.result = .ok ()) :
    t.error? f = none := by
  rw [error?, h, hresult, Option.none_or]

theorem settle_eq (h : t.staged.failure = none) :
    Context.settle t.occasion.stage (t.outcome f).1.result (t.outcome f).2 =
      (t.error? f).elim (.ok (t.outcome f).2) .error := by
  have hfailure : (t.outcome f).2.failure = t.refusal? f := by
    rw [outcome, Context.failure_run, h, Option.none_or, refusal?, asked]
  unfold Context.settle error?
  rw [hfailure]
  cases t.refusal? f with
  | some e => rfl
  | none => cases (t.outcome f).1.result <;> rfl

theorem endsWith_callback (h : t.staged.failure = none) (log : List (Event ι ο)) :
    (t.context.callback t.occasion.stage ((f.body t.occasion).recorded t.occasion)
        t.staged).EndsWith (t.memory, log)
      (fun s memory => t.error? f = none ∧ s.failure = none ∧ memory.2 = log ++ t.events f)
      fun e memory => t.error? f = some e ∧ memory.2 = log ++ t.events f := by
  have hsettle := settle_eq (f := f) h
  unfold Session.EndsWith
  rw [Context.run_callback_recorded, Context.run_callback]
  unfold outcome at hsettle
  rw [hsettle]
  cases herror : t.error? f with
  | some e => exact ⟨rfl, rfl⟩
  | none =>
    rw [herror] at hsettle
    exact ⟨rfl, (Context.settle_eq_ok_iff.1 hsettle).1, rfl⟩

def AllWell (f : UserFunction μ ι ο) (turns : List (Turn μ ι ο ρ σ)) : Prop :=
  ∀ t ∈ turns, t.error? f = none

/-- A call that failed is the last one, and failed with the error given. -/
def Blames (f : UserFunction μ ι ο) (turns : List (Turn μ ι ο ρ σ)) (e : ExecutionError) : Prop :=
  ∀ before t after, turns = before ++ t :: after →
    ∀ e', t.error? f = some e' → after = [] ∧ e' = e

theorem AllWell.blames {turns : List (Turn μ ι ο ρ σ)} (h : AllWell f turns)
    (e : ExecutionError) : Blames f turns e := by
  intro before t after hturns e' he'
  rw [h t (hturns ▸ List.mem_append_cons_self)] at he'
  cases he'

theorem AllWell.concat {turns : List (Turn μ ι ο ρ σ)} (h : AllWell f turns)
    (ht : t.error? f = none) : AllWell f (turns ++ [t]) :=
  List.forall_mem_append.2 ⟨h, List.forall_mem_singleton.2 ht⟩

theorem AllWell.blames_concat {turns : List (Turn μ ι ο ρ σ)} {e : ExecutionError}
    (h : AllWell f turns) (ht : t.error? f = some e) : Blames f (turns ++ [t]) e := by
  intro before t' after hturns e' he'
  rcases List.append_eq_append_iff.1 hturns with ⟨zs, hbefore, hlast⟩ | ⟨zs, hdone, hrest⟩
  · cases zs with
    | nil =>
      cases hlast
      rw [ht] at he'
      exact ⟨rfl, (Option.some.inj he').symm⟩
    | cons z zs =>
      have hnil := (List.cons.inj hlast).2
      simp at hnil
  · cases zs with
    | nil =>
      cases hrest
      rw [ht] at he'
      exact ⟨rfl, (Option.some.inj he').symm⟩
    | cons z zs =>
      cases hrest
      rw [h t' (hdone ▸ List.mem_append_cons_self)] at he'
      cases he'

end Turn

end StreamOperator
