import StreamOperator.Function.Recording
import StreamOperator.Proofs.Session
import StreamOperator.Proofs.Timer.Rounds

/-! What a record tells of the work it was kept of: the pieces a function was handed, the timers it
was called for, and what it was granted to do to timers and cells, each under the key of the call it
was asked in. -/

namespace StreamOperator

variable {ι ο α μ ρ σ : Type}

def Occasion.piece? : Occasion ι → Option (Element ι)
  | element piece => some piece
  | _ => none

def Event.piece? : Event ι ο → Option (Element ι)
  | called occasion _ => occasion.piece?
  | _ => none

def Event.handed (log : List (Event ι ο)) : List (Element ι) := log.filterMap Event.piece?

/-- What a granted request does to the timers of a key. -/
def Request.timerOp? (key : Option EncodedKey) : (q : Request ι ο) → q.Reply → Option TimerOp
  | .setTimer t, .ok _ => key.map (.set · t)
  | .deleteTimer slot, .ok _ => key.map (.delete · slot)
  | _, _ => none

@[simp] theorem Request.timerOp?_none (q : Request ι ο) (reply : q.Reply) :
    q.timerOp? none reply = none := by
  cases q with
  | setTimer t => cases reply <;> rfl
  | deleteTimer slot => cases reply <;> rfl
  | _ => rfl

def Request.cellWrite? (operator : String) (key : Option EncodedKey) :
    (q : Request ι ο) → q.Reply → Option CellWrite
  | .writeState space tag content, .ok _ =>
    key.map fun key => (⟨operator, key.bytes, space, tag⟩, content)
  | .clearState space tag, .ok _ => key.map fun key => (⟨operator, key.bytes, space, tag⟩, none)
  | _, _ => none

def Staging.stageWrites (writes : Std.ExtTreeMap Address (Option Bytes)) (ws : List CellWrite) :
    Std.ExtTreeMap Address (Option Bytes) :=
  ws.foldl (fun writes w => writes.insert w.1 w.2) writes

def Event.scan : Option EncodedKey × List TimerOp → Event ι ο → Option EncodedKey × List TimerOp
  | (_, ops), called _ key => (key, ops)
  | (key, ops), asked q reply => (key, ops ++ (q.timerOp? key reply).toList)
  | (key, ops), ended _ => (key, ops)

def Event.timerOps (log : List (Event ι ο)) : List TimerOp := (log.foldl Event.scan (none, [])).2

@[simp] theorem Event.handed_nil : handed ([] : List (Event ι ο)) = [] := rfl

@[simp] theorem Event.handed_append (xs ys : List (Event ι ο)) :
    handed (xs ++ ys) = handed xs ++ handed ys := List.filterMap_append

namespace TimerMove

def op? : TimerMove → Option TimerOp
  | fire _ => none
  | op o => some o

def fired? : TimerMove → Option FiredTimer
  | fire f => some f
  | op _ => none

@[simp] theorem filterMap_op?_map_fire (fs : List FiredTimer) :
    (fs.map fire).filterMap op? = [] := by
  simp [op?, Function.comp_def]

@[simp] theorem filterMap_op?_map_op (ops : List TimerOp) : (ops.map op).filterMap op? = ops := by
  rw [List.filterMap_map]
  exact List.filterMap_some

end TimerMove

def Occasion.fired? : Occasion ι → Option EncodedKey → Option FiredTimer
  | timer t, key => key.map (⟨·, t⟩)
  | _, _ => none

namespace Event

def fired? : Event ι ο → Option FiredTimer
  | called occasion key => occasion.fired? key
  | _ => none

def firings (log : List (Event ι ο)) : List FiredTimer := log.filterMap fired?

def isTimerCall : Event ι ο → Bool
  | called (.timer _) _ => true
  | _ => false

def follow : Option EncodedKey × List TimerMove → Event ι ο → Option EncodedKey × List TimerMove
  | (_, moves), called occasion key => (key, moves ++ (occasion.fired? key).toList.map .fire)
  | (key, moves), asked q reply => (key, moves ++ (q.timerOp? key reply).toList.map .op)
  | (key, moves), ended _ => (key, moves)

/-- The timers that fired in a record and the timer operations granted in it, in order. -/
def moves (log : List (Event ι ο)) : List TimerMove := (log.foldl follow (none, [])).2

theorem foldl_scan_eq (log : List (Event ι ο)) :
    log.foldl scan (none, []) =
      ((log.foldl follow (none, [])).1, (moves log).filterMap TimerMove.op?) := by
  unfold moves
  induction log using List.reverseRecOn with
  | nil => rfl
  | append_singleton log e ih =>
    rw [List.foldl_append, List.foldl_append, ih]
    rcases log.foldl follow (none, []) with ⟨key, moves⟩
    cases e with
    | called occasion key => cases h : occasion.fired? key <;> simp [scan, follow, h, TimerMove.op?]
    | asked q reply => cases h : q.timerOp? key reply <;> simp [scan, follow, h, TimerMove.op?]
    | ended result => rfl

theorem timerOps_eq (log : List (Event ι ο)) :
    timerOps log = (moves log).filterMap TimerMove.op? :=
  congrArg Prod.snd (foldl_scan_eq log)

theorem firings_eq (log : List (Event ι ο)) :
    firings log = (moves log).filterMap TimerMove.fired? := by
  unfold moves firings
  induction log using List.reverseRecOn with
  | nil => rfl
  | append_singleton log e ih =>
    rw [List.filterMap_append, ih, List.foldl_append]
    rcases log.foldl follow (none, []) with ⟨key, moves⟩
    cases e with
    | called occasion key =>
      cases h : occasion.fired? key <;> simp [fired?, follow, h, TimerMove.fired?]
    | asked q reply =>
      have hnone : [(asked q reply : Event ι ο)].filterMap fired? = [] := rfl
      cases h : q.timerOp? key reply <;> simp [hnone, follow, h, TimerMove.fired?]
    | ended result => simp [fired?, follow]

def chosenTime? : Event ι ο → Option Instant
  | asked (.outputAt _ time) _ => some time
  | asked (.outputWhole e) _ => some e.timestamp
  | _ => none

/-- Emissions stand at the times of the elements that the function was handed, and at times that it
chose. -/
def Dates (log : List (Event ι ο)) (emitted : List (Channel × Element ο)) : Prop :=
  ∀ x ∈ emitted, x.2.timestamp ∈ (handed log).map Element.timestamp ∨
    x.2.timestamp ∈ log.filterMap chosenTime?

/-- A record from the start of a bundle on tells what the bundle has staged, after it was handed
some pieces. -/
structure Covers (log : List (Event ι ο)) (pieces : List (Element ι)) (s : Staging ι ο) : Prop where
  handed : handed log = pieces
  timerOps : timerOps log = s.timerOps
  dates : Dates log s.emitted

/-- From one record to a later one some timers fired, and nothing else went on that a record tells
of. -/
structure OnlyFires (log : List (Event ι ο)) (fs : List Firing) (log' : List (Event ι ο)) :
    Prop where
  moves : moves log' = Event.moves log ++ fs.flatMap Firing.moves
  handed : handed log' = Event.handed log
  calls : log'.countP isTimerCall = log.countP isTimerCall + fs.length

namespace OnlyFires

variable {log log' log'' : List (Event ι ο)} {fs gs : List Firing}

theorem refl (log : List (Event ι ο)) : OnlyFires log [] log := ⟨by simp, rfl, rfl⟩

theorem trans (h : OnlyFires log fs log') (h' : OnlyFires log' gs log'') :
    OnlyFires log (fs ++ gs) log'' where
  moves := by rw [h'.moves, h.moves, List.flatMap_append, List.append_assoc]
  handed := h'.handed.trans h.handed
  calls := by rw [h'.calls, h.calls, List.length_append, Nat.add_assoc]

theorem timerOps (h : OnlyFires log fs log') :
    timerOps log' = Event.timerOps log ++ fs.flatMap Firing.ops := by
  have hops (fs : List Firing) : (fs.flatMap Firing.moves).filterMap TimerMove.op? =
      fs.flatMap Firing.ops := by
    rw [List.filterMap_flatMap]
    refine List.flatMap_congr fun f _ => ?_
    rw [Firing.moves, List.filterMap_cons_none rfl, TimerMove.filterMap_op?_map_op]
  rw [timerOps_eq, h.moves, List.filterMap_append, hops, ← timerOps_eq]

theorem firings (h : OnlyFires log fs log') :
    firings log' = Event.firings log ++ fs.map Firing.fired := by
  have hfired (fs : List Firing) : (fs.flatMap Firing.moves).filterMap TimerMove.fired? =
      fs.map Firing.fired := by
    rw [List.filterMap_flatMap, List.map_eq_flatMap]
    refine List.flatMap_congr fun f _ => ?_
    simp [Firing.moves, TimerMove.fired?, Function.comp_def]
  rw [firings_eq, h.moves, List.filterMap_append, hfired, ← firings_eq]

end OnlyFires

end Event

namespace Context

variable [SideInputReader ρ] [StateStore σ]

theorem events_bind {β : Type} (c : Context ρ σ) (s : Staging ι ο) (x : Interaction ι ο α)
    (f : α → Interaction ι ο β) :
    c.events s (x.bind f) = c.events s x ++ c.events (c.run s x).2 (f (c.run s x).1) := by
  induction x generalizing s with
  | done a => rfl
  | ask q next ih => exact congrArg (_ :: ·) (ih _ _)

@[simp] theorem handed_events (c : Context ρ σ) (s : Staging ι ο) (x : Interaction ι ο α) :
    Event.handed (c.events s x) = [] := by
  induction x generalizing s with
  | done a => rfl
  | ask q next ih => exact ih _ _

@[simp] theorem handed_callbackEvents (c : Context ρ σ) (occasion : Occasion ι)
    (body : Callback μ ι ο) (s : Staging ι ο) (memory : μ) :
    Event.handed (c.callbackEvents occasion body s memory) = occasion.piece?.toList := by
  have h : Event.handed [(.called occasion c.key : Event ι ο)] = occasion.piece?.toList := by
    cases hp : occasion.piece? <;> simp [Event.handed, Event.piece?, hp]
  have he (result : Except String Unit) : Event.handed [(.ended result : Event ι ο)] = [] := rfl
  rw [callbackEvents, List.cons_append, ← List.singleton_append, Event.handed_append,
    Event.handed_append, handed_events, he, h, List.append_nil, List.append_nil]

theorem kept_of_answer (c : Context ρ σ) (s : Staging ι ο) (q : Request ι ο) :
    (c.answer s q).2.pushedBack = s.pushedBack ∧
      (c.answer s q).2.firedTimers = s.firedTimers := by
  cases q <;>
    simp only [answer, withFrame, withKey, withCell, readCell, cellContent, refuse,
      Staging.fail, Staging.emit, Staging.addTimerOp, Staging.write, Staging.addResidual] <;>
    (repeat' split) <;> simp

theorem kept_of_run (c : Context ρ σ) (s : Staging ι ο) (x : Interaction ι ο α) :
    (c.run s x).2.pushedBack = s.pushedBack ∧ (c.run s x).2.firedTimers = s.firedTimers := by
  induction x generalizing s with
  | done a => exact ⟨rfl, rfl⟩
  | ask q next ih =>
    obtain ⟨hback, hfired⟩ := c.kept_of_answer s q
    obtain ⟨hback', hfired'⟩ := ih (c.answer s q).1 (c.answer s q).2
    exact ⟨hback'.trans hback, hfired'.trans hfired⟩

@[simp] theorem pushedBack_run (c : Context ρ σ) (s : Staging ι ο) (x : Interaction ι ο α) :
    (c.run s x).2.pushedBack = s.pushedBack := (c.kept_of_run s x).1

@[simp] theorem firedTimers_run (c : Context ρ σ) (s : Staging ι ο) (x : Interaction ι ο α) :
    (c.run s x).2.firedTimers = s.firedTimers := (c.kept_of_run s x).2

theorem timerOps_answer (c : Context ρ σ) (s : Staging ι ο) (q : Request ι ο) :
    (c.answer s q).2.timerOps =
      s.timerOps ++ (q.timerOp? c.key (c.answer s q).1).toList := by
  cases q <;>
    simp only [answer, withFrame, withKey, withCell, readCell, cellContent, refuse,
      Staging.fail, Staging.emit, Staging.addTimerOp, Staging.write, Staging.addResidual] <;>
    (repeat' split) <;> simp_all [Request.timerOp?]

theorem writes_answer (c : Context ρ σ) (s : Staging ι ο) (q : Request ι ο) :
    (c.answer s q).2.writes =
      Staging.stageWrites s.writes (q.cellWrite? c.operator c.key (c.answer s q).1).toList := by
  cases q <;>
    simp only [answer, withFrame, withKey, withCell, readCell, cellContent, refuse,
      Staging.fail, Staging.emit, Staging.addTimerOp, Staging.write, Staging.addResidual] <;>
    (repeat' split) <;> simp_all [Request.cellWrite?, Staging.stageWrites]

theorem timerOps_run_of_no_key {c : Context ρ σ} (h : c.key = none) (s : Staging ι ο)
    (x : Interaction ι ο α) : (c.run s x).2.timerOps = s.timerOps := by
  induction x generalizing s with
  | done a => rfl
  | ask q next ih =>
    have hrest : (c.run s (.ask q next)).2.timerOps = (c.answer s q).2.timerOps := ih _ _
    rw [hrest, timerOps_answer, h, Request.timerOp?_none, Option.toList_none, List.append_nil]

theorem follow_events (c : Context ρ σ) (s : Staging ι ο) (x : Interaction ι ο α) :
    ∃ ops, (c.run s x).2.timerOps = s.timerOps ++ ops ∧
      ∀ moves, (c.events s x).foldl Event.follow (c.key, moves) =
        (c.key, moves ++ ops.map .op) := by
  induction x generalizing s with
  | done a => exact ⟨[], by simp [run], by simp [events]⟩
  | ask q next ih =>
    obtain ⟨ops, hrun, hevents⟩ := ih (c.answer s q).1 (c.answer s q).2
    refine ⟨(q.timerOp? c.key (c.answer s q).1).toList ++ ops, ?_, fun moves => ?_⟩
    · rw [← List.append_assoc, ← timerOps_answer]
      exact hrun
    · simp only [events, List.foldl_cons, Event.follow, hevents, List.map_append,
        List.append_assoc]

theorem countP_isTimerCall_events (c : Context ρ σ) (s : Staging ι ο) (x : Interaction ι ο α) :
    (c.events s x).countP Event.isTimerCall = 0 := by
  induction x generalizing s with
  | done a => rfl
  | ask q next ih =>
    rw [events, List.countP_cons_of_neg (by simp [Event.isTimerCall])]
    exact ih _ _

theorem countP_isTimerCall_callbackEvents (c : Context ρ σ) (occasion : Occasion ι)
    (body : Callback μ ι ο) (s : Staging ι ο) (memory : μ) :
    (c.callbackEvents occasion body s memory).countP Event.isTimerCall =
      [(.called occasion c.key : Event ι ο)].countP Event.isTimerCall := by
  have hended (result : Except String Unit) :
      [(.ended result : Event ι ο)].countP Event.isTimerCall = 0 := rfl
  rw [callbackEvents, List.cons_append, ← List.singleton_append, List.countP_append,
    List.countP_append, countP_isTimerCall_events, hended, Nat.add_zero]

theorem moves_append_callbackEvents (c : Context ρ σ) (occasion : Occasion ι)
    (body : Callback μ ι ο) (s : Staging ι ο) (memory : μ) :
    ∃ ops, (c.run s (body memory)).2.timerOps = s.timerOps ++ ops ∧
      ∀ log, Event.moves (log ++ c.callbackEvents occasion body s memory) =
        Event.moves log ++ (occasion.fired? c.key).toList.map .fire ++ ops.map .op := by
  obtain ⟨ops, hrun, hevents⟩ := c.follow_events s (body memory)
  refine ⟨ops, hrun, fun log => ?_⟩
  simp only [Event.moves, callbackEvents, List.foldl_append, List.cons_append, List.foldl_cons,
    List.foldl_nil]
  rcases log.foldl Event.follow (none, []) with ⟨key, moves⟩
  simp only [Event.follow, hevents]

theorem settle_eq_ok_iff {stage : Stage} {result : Except String Unit} {s s' : Staging ι ο} :
    settle stage result s = .ok s' ↔ s.failure = none ∧ result = .ok () ∧ s' = s := by
  unfold settle
  cases s.failure <;> rcases result with _ | ⟨⟩ <;> simp [eq_comm]

theorem ends_callback (c : Context ρ σ) (stage : Stage) (body : Callback μ ι ο)
    (s : Staging ι ο) (memory : μ) :
    (c.callback stage body s).Ends memory
      (fun s' _ => s' = (c.run s (body memory)).2 ∧ s'.failure = none) fun _ => True := by
  unfold Session.Ends
  rw [run_callback]
  cases hsettle : settle stage (c.run s (body memory)).1.result (c.run s (body memory)).2 with
  | error e => trivial
  | ok s' =>
    obtain ⟨hfailure, -, rfl⟩ := settle_eq_ok_iff.1 hsettle
    exact ⟨rfl, hfailure⟩

theorem onlyFires_timer {c : Context ρ σ} {key : EncodedKey} (hkey : c.key = some key) (t : Timer)
    (body : Callback μ ι ο) (s : Staging ι ο) (memory : μ) :
    ∃ ops, (c.run s (body memory)).2.timerOps = s.timerOps ++ ops ∧
      ∀ log, Event.OnlyFires log [⟨⟨key, t⟩, ops⟩]
        (log ++ c.callbackEvents (.timer t) body s memory) := by
  obtain ⟨ops, hrun, hmoves⟩ := c.moves_append_callbackEvents (.timer t) body s memory
  refine ⟨ops, hrun, fun log => ⟨?_, ?_, ?_⟩⟩
  · rw [hmoves, hkey]
    simp [Occasion.fired?, Firing.moves]
  · simp [Occasion.piece?]
  · rw [List.countP_append, countP_isTimerCall_callbackEvents]
    rfl

theorem onlyFires_nil {c : Context ρ σ} (hkey : c.key = none) {occasion : Occasion ι}
    (hoccasion : occasion = .startBundle ∨ occasion = .finishBundle) (body : Callback μ ι ο)
    (s : Staging ι ο) (memory : μ) (log : List (Event ι ο)) :
    Event.OnlyFires log [] (log ++ c.callbackEvents occasion body s memory) := by
  obtain ⟨ops, hrun, hmoves⟩ := c.moves_append_callbackEvents occasion body s memory
  rw [timerOps_run_of_no_key hkey, List.self_eq_append_right] at hrun
  refine ⟨?_, ?_, ?_⟩
  · rw [hmoves, hrun, hkey]
    rcases hoccasion with rfl | rfl <;> simp [Occasion.fired?]
  · rcases hoccasion with rfl | rfl <;> simp [Occasion.piece?]
  · rw [List.countP_append, countP_isTimerCall_callbackEvents]
    rcases hoccasion with rfl | rfl <;> rfl

theorem ends_callback_recorded (c : Context ρ σ) (stage : Stage) (occasion : Occasion ι)
    (body : Callback μ ι ο) (s : Staging ι ο) (memory : μ) (log : List (Event ι ο)) :
    (c.callback stage (body.recorded occasion) s).Ends (memory, log)
      (fun s' memory' => s' = (c.run s (body memory)).2 ∧
        memory'.2 = log ++ c.callbackEvents occasion body s memory)
      fun memory' => memory'.2 = log ++ c.callbackEvents occasion body s memory := by
  unfold Session.Ends
  rw [run_callback_recorded, run_callback]
  cases hsettle : settle stage (c.run s (body memory)).1.result (c.run s (body memory)).2 with
  | error e => rfl
  | ok s' => exact ⟨(settle_eq_ok_iff.1 hsettle).2.2, rfl⟩

theorem ends_callback_timer {c : Context ρ σ} {key : EncodedKey} (hkey : c.key = some key)
    (t : Timer) (stage : Stage) (body : Callback μ ι ο) (s : Staging ι ο) (memory : μ)
    (log : List (Event ι ο)) :
    (c.callback stage (body.recorded (.timer t)) s).Ends (memory, log)
      (fun s' memory' => ∃ ops, s'.timerOps = s.timerOps ++ ops ∧
        s'.firedTimers = s.firedTimers ∧ Event.OnlyFires log [⟨⟨key, t⟩, ops⟩] memory'.2)
      fun memory' => ∃ ops, Event.OnlyFires log [⟨⟨key, t⟩, ops⟩] memory'.2 := by
  obtain ⟨ops, hrun, hfires⟩ := onlyFires_timer hkey t body s memory
  refine (c.ends_callback_recorded stage (.timer t) body s memory log).mono ?_ ?_
  · rintro s' memory' ⟨rfl, hlog⟩
    exact ⟨ops, hrun, c.firedTimers_run s _, hlog ▸ hfires log⟩
  · intro memory' hlog
    exact ⟨ops, hlog ▸ hfires log⟩

theorem ends_callback_bracket {c : Context ρ σ} (hkey : c.key = none) {occasion : Occasion ι}
    (hoccasion : occasion = .startBundle ∨ occasion = .finishBundle) (stage : Stage)
    (body : Callback μ ι ο) (s : Staging ι ο) (memory : μ) (log : List (Event ι ο)) :
    (c.callback stage (body.recorded occasion) s).Ends (memory, log)
      (fun s' memory' => s'.timerOps = s.timerOps ∧ s'.firedTimers = s.firedTimers ∧
        Event.OnlyFires log [] memory'.2)
      fun memory' => Event.OnlyFires log [] memory'.2 := by
  have hfires := onlyFires_nil hkey hoccasion body s memory log
  refine (c.ends_callback_recorded stage occasion body s memory log).mono ?_ ?_
  · rintro s' memory' ⟨rfl, hlog⟩
    exact ⟨timerOps_run_of_no_key hkey s _, c.firedTimers_run s _, hlog ▸ hfires⟩
  · intro memory' hlog
    exact hlog ▸ hfires

theorem emitted_answer (c : Context ρ σ) (s : Staging ι ο) (q : Request ι ο) :
    ∀ x ∈ (c.answer s q).2.emitted, x ∈ s.emitted ∨ (∃ f ∈ c.current, f.timestamp = x.2.timestamp) ∨
      (Event.asked q (c.answer s q).1).chosenTime? = some x.2.timestamp := by
  intro x
  cases q <;>
    simp only [answer, withFrame, withKey, withCell, readCell, cellContent, refuse,
      Staging.fail, Staging.emit, Staging.addTimerOp, Staging.write, Staging.addResidual] <;>
    (repeat' split) <;> simp_all [Event.chosenTime?] <;> rintro (rfl | hx) <;> simp_all

theorem emitted_run (c : Context ρ σ) (s : Staging ι ο) (i : Interaction ι ο α) :
    ∀ x ∈ (c.run s i).2.emitted, x ∈ s.emitted ∨ (∃ f ∈ c.current, f.timestamp = x.2.timestamp) ∨
      x.2.timestamp ∈ (c.events s i).filterMap Event.chosenTime? := by
  induction i generalizing s with
  | done a => exact fun x hx => Or.inl hx
  | ask q next ih =>
    intro x hx
    have hevents : c.events s (.ask q next) = [.asked q (c.answer s q).1] ++
        c.events (c.answer s q).2 (next (c.answer s q).1) := rfl
    rw [hevents, List.filterMap_append, List.mem_append]
    rcases ih _ _ x hx with hx | hframe | hchosen
    · rcases c.emitted_answer s q x hx with hx | hframe | hchosen
      · exact Or.inl hx
      · exact Or.inr (Or.inl hframe)
      · refine Or.inr (Or.inr (Or.inl ?_))
        exact List.mem_filterMap.2 ⟨_, List.mem_singleton_self _, hchosen⟩
    · exact Or.inr (Or.inl hframe)
    · exact Or.inr (Or.inr (Or.inr hchosen))

theorem dates_append_callbackEvents {c : Context ρ σ} {occasion : Occasion ι}
    (hframe : ∀ f ∈ c.current, ∃ piece ∈ occasion.piece?, f.timestamp = piece.timestamp)
    (body : Callback μ ι ο) {s : Staging ι ο} {log : List (Event ι ο)}
    (h : Event.Dates log s.emitted) (memory : μ) :
    Event.Dates (log ++ c.callbackEvents occasion body s memory)
      (c.run s (body memory)).2.emitted := by
  intro x hx
  rw [Event.handed_append, handed_callbackEvents, List.map_append, List.filterMap_append,
    List.mem_append, List.mem_append]
  rcases c.emitted_run s (body memory) x hx with hx | ⟨f, hf, htime⟩ | hchosen
  · rcases h x hx with hhanded | hchosen
    · exact Or.inl (Or.inl hhanded)
    · exact Or.inr (Or.inl hchosen)
  · obtain ⟨piece, hpiece, hpieceTime⟩ := hframe f hf
    refine Or.inl (Or.inr (List.mem_map.2 ⟨piece, Option.mem_toList.2 hpiece, ?_⟩))
    rw [← hpieceTime, htime]
  · refine Or.inr (Or.inr ?_)
    rw [callbackEvents, List.filterMap_append]
    exact List.mem_append_left _ hchosen

theorem ends_callback_covers {c : Context ρ σ} (occasion : Occasion ι)
    (hframe : ∀ f ∈ c.current, ∃ piece ∈ occasion.piece?, f.timestamp = piece.timestamp)
    (stage : Stage) (body : Callback μ ι ο) {pieces : List (Element ι)} {s : Staging ι ο}
    {log : List (Event ι ο)} (h : Event.Covers log pieces s) (memory : μ) :
    (c.callback stage (body.recorded occasion) s).Ends (memory, log)
      (fun s' memory' => s'.pushedBack = s.pushedBack ∧
        Event.Covers memory'.2 (pieces ++ occasion.piece?.toList) s')
      fun memory' => Event.handed memory'.2 = pieces ++ occasion.piece?.toList := by
  have hhanded : Event.handed (log ++ c.callbackEvents occasion body s memory) =
      pieces ++ occasion.piece?.toList := by
    rw [Event.handed_append, handed_callbackEvents, h.handed]
  refine (c.ends_callback_recorded stage occasion body s memory log).mono ?_ ?_
  · rintro s' memory' ⟨rfl, hlog⟩
    rw [hlog]
    refine ⟨c.pushedBack_run s _, hhanded, ?_,
      dates_append_callbackEvents hframe body h.dates memory⟩
    obtain ⟨ops, hrun, hmoves⟩ := c.moves_append_callbackEvents occasion body s memory
    rw [Event.timerOps_eq, hmoves, List.filterMap_append, List.filterMap_append,
      ← Event.timerOps_eq, h.timerOps, hrun, TimerMove.filterMap_op?_map_fire,
      TimerMove.filterMap_op?_map_op, List.append_nil]
  · intro memory' hlog
    rw [hlog, hhanded]

end Context

end StreamOperator
