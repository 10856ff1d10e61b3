import StreamOperator.Proofs.Function.Record

/-! The order in which a record calls a function. A rule says of each occasion what the record
before it must be; within a bundle the rule is that the bundle starts, goes on while every call
succeeds, and has nothing after its finish. -/

namespace StreamOperator

variable {ι ο α μ ρ σ : Type}

/-- The calls for the work itself, between setting up and tearing down. -/
def Occasion.isWork : Occasion ι → Bool
  | setup | teardown => false
  | startBundle | element _ | timer _ | finishBundle => true

def Occasion.isInner : Occasion ι → Bool
  | element _ | timer _ => true
  | setup | startBundle | finishBundle | teardown => false

namespace Event

def isCall : Event ι ο → Bool
  | called _ _ => true
  | asked _ _ | ended _ => false

def isWork : Event ι ο → Bool
  | called occasion _ => occasion.isWork
  | asked _ _ | ended _ => false

/-- Every call in a record keeps a rule about what came before it. -/
def Keeps (rule : List (Event ι ο) → Occasion ι → Prop) (log : List (Event ι ο)) : Prop :=
  ∀ before occasion key after, log = before ++ called occasion key :: after → rule before occasion

/-- A call of the function went well, or at least did not end yet, and it does not finish a
bundle. -/
def GoesOn : Event ι ο → Prop
  | called occasion _ => occasion ≠ .finishBundle
  | asked q reply => q.refusal? reply = none
  | ended result => result = .ok ()

/-- In a bundle the function is called for the start first, and then as long as all goes on. -/
def InBundle (before : List (Event ι ο)) : Occasion ι → Prop
  | .setup | .teardown => False
  | .startBundle => before = []
  | .element _ | .timer _ | .finishBundle => before ≠ [] ∧ ∀ e ∈ before, e.GoesOn

structure Bracketed (log : List (Event ι ο)) : Prop where
  starts : ∃ key rest, log = called .startBundle key :: rest
  order : Keeps InBundle log

variable {rule : List (Event ι ο) → Occasion ι → Prop} {xs ys log : List (Event ι ο)}

theorem keeps_nil : Keeps rule [] := by
  intro before occasion key after h
  simp at h

theorem keeps_append :
    Keeps rule (xs ++ ys) ↔ Keeps rule xs ∧ Keeps (fun before => rule (xs ++ before)) ys := by
  constructor
  · intro h
    constructor
    · intro before occasion key after hxs
      exact h before occasion key (after ++ ys) (by rw [hxs, List.append_assoc, List.cons_append])
    · intro before occasion key after hys
      exact h (xs ++ before) occasion key after (by rw [hys, List.append_assoc])
  · intro h before occasion key after heq
    rcases List.append_eq_append_iff.1 heq with ⟨zs, hbefore, hys⟩ | ⟨zs, hxs, hzs⟩
    · rw [hbefore]
      exact h.2 zs occasion key after hys
    · cases zs with
      | nil =>
        rw [List.append_nil] at hxs
        rw [← hxs, ← List.append_nil xs]
        exact h.2 [] occasion key after hzs.symm
      | cons z zs =>
        cases hzs
        exact h.1 before occasion key zs hxs

theorem keeps_cons_called {occasion : Occasion ι} {key : Option EncodedKey}
    (hrest : ∀ e ∈ xs, e.isCall = false) :
    Keeps rule (called occasion key :: xs) ↔ rule [] occasion := by
  constructor
  · intro h
    exact h [] occasion key xs rfl
  · intro h before occasion' key' after heq
    cases before with
    | nil =>
      cases heq
      exact h
    | cons e before =>
      have hcall : called occasion' key' ∈ xs := by
        rw [(List.cons.inj heq).2]
        exact List.mem_append_right _ List.mem_cons_self
      cases hrest _ hcall

end Event

namespace Context

variable [SideInputReader ρ] [StateStore σ]

theorem asked_of_mem_events (c : Context ρ σ) (s : Staging ι ο) (x : Interaction ι ο α) :
    ∀ e ∈ c.events s x, ∃ q reply, e = .asked q reply := by
  induction x generalizing s with
  | done a =>
    intro e he
    cases he
  | ask q next ih =>
    intro e he
    cases List.mem_cons.1 he with
    | inl he => exact ⟨_, _, he⟩
    | inr he => exact ih _ _ e he

theorem keeps_callbackEvents {rule : List (Event ι ο) → Occasion ι → Prop} (c : Context ρ σ)
    {occasion : Occasion ι} (h : rule [] occasion) (body : Callback μ ι ο) (s : Staging ι ο)
    (memory : μ) : Event.Keeps rule (c.callbackEvents occasion body s memory) := by
  apply (Event.keeps_cons_called ?_).2 h
  intro e he
  cases List.mem_append.1 he with
  | inl he =>
    obtain ⟨q, reply, rfl⟩ := c.asked_of_mem_events s (body memory) e he
    rfl
  | inr he =>
    rw [List.mem_singleton.1 he]
    rfl

theorem failure_run (c : Context ρ σ) (s : Staging ι ο) (x : Interaction ι ο α) :
    (c.run s x).2.failure = s.failure.or ((c.events s x).findSome? Event.refusal?) := by
  induction x generalizing s with
  | done a => rw [run, events, List.findSome?_nil, Option.or_none]
  | ask q next ih =>
    rw [run, events, List.findSome?_cons]
    dsimp only
    rw [ih, failure_answer, Option.or_assoc]
    cases h : (Event.asked q (c.answer s q).1).refusal? with
    | none =>
      have hq : q.refusal? (c.answer s q).1 = none := h
      rw [hq, Option.none_or]
    | some e =>
      have hq : q.refusal? (c.answer s q).1 = some e := h
      rw [hq, Option.some_or]

theorem goesOn_of_settle {c : Context ρ σ} {stage : Stage} {occasion : Occasion ι}
    (hoccasion : occasion ≠ .finishBundle) {body : Callback μ ι ο} {s s' : Staging ι ο} {memory : μ}
    (h : settle stage (c.run s (body memory)).1.result (c.run s (body memory)).2 = .ok s') :
    ∀ e ∈ c.callbackEvents occasion body s memory, e.GoesOn := by
  obtain ⟨hfailure, hresult, -⟩ := settle_eq_ok_iff.1 h
  rw [failure_run, Option.or_eq_none_iff, List.findSome?_eq_none_iff] at hfailure
  intro e he
  rw [callbackEvents, List.cons_append, List.mem_cons, List.mem_append, List.mem_singleton] at he
  rcases he with rfl | he | rfl
  · exact hoccasion
  · obtain ⟨q, reply, rfl⟩ := c.asked_of_mem_events s (body memory) e he
    exact hfailure.2 _ he
  · exact hresult

end Context

structure Event.Underway (log : List (Event ι ο)) : Prop extends Event.Bracketed log where
  goesOn : ∀ e ∈ log, e.GoesOn

theorem Event.Bracketed.ne_nil {log : List (Event ι ο)} (h : Event.Bracketed log) : log ≠ [] := by
  obtain ⟨key, rest, rfl⟩ := h.starts
  exact List.cons_ne_nil _ _

namespace Context

variable [SideInputReader ρ] [StateStore σ]

theorem ends_callback_start (c : Context ρ σ) (stage : Stage) (body : Callback μ ι ο)
    (s : Staging ι ο) (memory : μ) :
    (c.callback stage (body.recorded .startBundle) s).Ends (memory, [])
      (fun _ memory' => Event.Underway memory'.2) fun memory' => Event.Bracketed memory'.2 := by
  have hbracketed : Event.Bracketed (c.callbackEvents .startBundle body s memory) :=
    ⟨⟨_, _, rfl⟩, c.keeps_callbackEvents rfl body s memory⟩
  unfold Session.Ends
  rw [run_callback_recorded, run_callback]
  cases hsettle : settle stage (c.run s (body memory)).1.result (c.run s (body memory)).2 with
  | error e => exact hbracketed
  | ok s' => exact ⟨hbracketed, goesOn_of_settle (by intro h; cases h) hsettle⟩

theorem bracketed_append (c : Context ρ σ) {occasion : Occasion ι} (body : Callback μ ι ο)
    (s : Staging ι ο) (memory : μ) {log : List (Event ι ο)} (h : Event.Underway log)
    (hrule : Event.InBundle log occasion) :
    Event.Bracketed (log ++ c.callbackEvents occasion body s memory) where
  starts := by
    obtain ⟨key, rest, hstarts⟩ := h.starts
    exact ⟨key, _, by rw [hstarts, List.cons_append]⟩
  order := by
    rw [← List.append_nil log] at hrule
    exact Event.keeps_append.2 ⟨h.order, c.keeps_callbackEvents hrule body s memory⟩

theorem ends_callback_inner (c : Context ρ σ) (stage : Stage) {occasion : Occasion ι}
    (hinner : occasion.isInner) (body : Callback μ ι ο) (s : Staging ι ο) (memory : μ)
    {log : List (Event ι ο)} (h : Event.Underway log) :
    (c.callback stage (body.recorded occasion) s).Ends (memory, log)
      (fun _ memory' => Event.Underway memory'.2) fun memory' => Event.Bracketed memory'.2 := by
  have hrule : Event.InBundle log occasion ∧ occasion ≠ .finishBundle := by
    cases occasion with
    | element | timer => exact ⟨⟨h.ne_nil, h.goesOn⟩, by intro h; cases h⟩
    | setup | startBundle | finishBundle | teardown => cases hinner
  have hbracketed := bracketed_append c body s memory h hrule.1
  unfold Session.Ends
  rw [run_callback_recorded, run_callback]
  cases hsettle : settle stage (c.run s (body memory)).1.result (c.run s (body memory)).2 with
  | error e => exact hbracketed
  | ok s' =>
    refine ⟨hbracketed, fun e he => ?_⟩
    cases List.mem_append.1 he with
    | inl he => exact h.goesOn e he
    | inr he => exact goesOn_of_settle hrule.2 hsettle e he

theorem ends_callback_finish (c : Context ρ σ) (stage : Stage) (body : Callback μ ι ο)
    (s : Staging ι ο) (memory : μ) {log : List (Event ι ο)} (h : Event.Underway log) :
    (c.callback stage (body.recorded .finishBundle) s).Ends (memory, log)
      (fun _ memory' => Event.Bracketed memory'.2) fun memory' => Event.Bracketed memory'.2 := by
  have hrule : Event.InBundle log .finishBundle := ⟨h.ne_nil, h.goesOn⟩
  have hbracketed := bracketed_append c body s memory h hrule
  unfold Session.Ends
  rw [run_callback_recorded, run_callback]
  cases settle stage (c.run s (body memory)).1.result (c.run s (body memory)).2 <;>
    exact hbracketed

end Context

end StreamOperator
