import Mathlib.Data.List.Basic
import StreamOperator.SideInput

/-! Which windows are ready, and what is found in them. A window is ready for a view once a value
has arrived in the window that serves it, and it stays so, whatever else arrives and in whatever
order. A lookup finds in it what has arrived there, in the order of arrival. -/

namespace StreamOperator

namespace SideInputReader

variable {ρ : Type} [SideInputReader ρ]

def Lasting (ρ : Type) [SideInputReader ρ] : Prop :=
  ∀ (reader : ρ) (u v : View) (e : Element SideValue) (w : Window),
    isReady reader v w = true → isReady (materialize reader u e) v w = true

def receive (views : List View) (reader : ρ) (arrival : Nat × Element SideValue) : ρ :=
  (views[arrival.1]?).elim reader (materialize reader · arrival.2)

end SideInputReader

inductive SideCall
  | add (view : View) (window : Window) (value : SideValue)
  | materialize (view : View) (element : Element SideValue)

namespace SideCall

/-- What a call brings in one window of one side input: a value for each time that its element
lists the window. -/
def delivered (key : SideKey) : SideCall → List SideValue
  | add view window value => if view.id = key.id ∧ window = key.window then [value] else []
  | materialize view element =>
    if view.id = key.id then List.replicate (element.windows.count key.window) element.value else []

/-- What calls bring in one window of one side input, in order. -/
def history (key : SideKey) (cs : List SideCall) : List SideValue := cs.flatMap (delivered key)

def ofArrivals (views : List View) (arrivals : List (Nat × Element SideValue)) : List SideCall :=
  arrivals.filterMap fun arrival => views[arrival.1]?.map (materialize · arrival.2)

end SideCall

namespace SideInputs

variable {s : SideInputs} {u v : View} {w : Window}

theorem isReady_add (w' : Window) (x : SideValue) :
    (s.add u w' x).isReady v w = true ↔
      s.isReady v w = true ∨ u.id = v.id ∧ v.mapping.sideWindow w = w' := by
  simp only [isReady_iff, add, Std.ExtTreeMap.mem_insert, Std.LawfulEqOrd.compare_eq_iff_eq,
    View.sideKey, SideKey.mk.injEq]
  rw [or_comm, eq_comm (a := w')]

theorem isReady_materialize (e : Element SideValue) :
    (s.materialize u e).isReady v w = true ↔
      s.isReady v w = true ∨ u.id = v.id ∧ v.mapping.sideWindow w ∈ e.windows := by
  unfold materialize
  induction e.windows generalizing s with
  | nil => simp
  | cons w' ws ih => rw [List.foldl_cons, ih, isReady_add, List.mem_cons, and_or_left, or_assoc]

theorem isReady_receive (views : List View) (arrivals : List (Nat × Element SideValue)) :
    (arrivals.foldl (SideInputReader.receive views) s).isReady v w = true ↔
      s.isReady v w = true ∨ ∃ arrival ∈ arrivals, ∃ u ∈ views[arrival.1]?,
        u.id = v.id ∧ v.mapping.sideWindow w ∈ arrival.2.windows := by
  induction arrivals generalizing s with
  | nil => simp
  | cons arrival arrivals ih =>
    rw [List.foldl_cons, ih, List.exists_mem_cons_iff, ← or_assoc]
    refine or_congr_left ?_
    unfold SideInputReader.receive
    cases views[arrival.1]? with
    | none => simp
    | some u =>
      simp only [Option.elim_some, Option.mem_def, Option.some.injEq, exists_eq_left']
      exact isReady_materialize arrival.2

def call (s : SideInputs) : SideCall → SideInputs
  | .add view window value => s.add view window value
  | .materialize view element => s.materialize view element

def ofCalls (cs : List SideCall) : SideInputs := cs.foldl call empty

theorem values_add (w' : Window) (x : SideValue) :
    (s.add u w' x).values v w = s.values v w ++ SideCall.delivered (v.sideKey w) (.add u w' x) := by
  have hkey : SideKey.mk u.id w' = v.sideKey w ↔
      u.id = (v.sideKey w).id ∧ w' = (v.sideKey w).window := by
    rw [← SideKey.mk.injEq]
  simp only [values, add, SideCall.delivered, Std.ExtTreeMap.getD_insert,
    Std.LawfulEqOrd.compare_eq_iff_eq, ← hkey]
  split
  next hsame => rw [hsame]
  next => rw [List.append_nil]

theorem values_materialize (e : Element SideValue) :
    (s.materialize u e).values v w =
      s.values v w ++ SideCall.delivered (v.sideKey w) (.materialize u e) := by
  simp only [materialize, SideCall.delivered]
  generalize e.windows = ws
  induction ws generalizing s with
  | nil => simp
  | cons w' ws ih =>
    rw [List.foldl_cons, ih, values_add, List.append_assoc, SideCall.delivered, List.count_cons]
    congr 1
    by_cases hid : u.id = (v.sideKey w).id <;> by_cases hw : w' = (v.sideKey w).window <;>
      simp [hid, hw, List.replicate_succ]

/-- A handler whose ready windows are those where a lookup finds something. -/
def Filled (s : SideInputs) : Prop :=
  ∀ (v : View) (w : Window), s.isReady v w = true ↔ s.values v w ≠ []

theorem filled_empty : Filled empty := by
  intro v w
  simp [isReady, values, empty]

theorem Filled.add (h : s.Filled) (w' : Window) (x : SideValue) : (s.add u w' x).Filled := by
  intro v w
  have hdelivered : SideCall.delivered (v.sideKey w) (.add u w' x) ≠ [] ↔
      u.id = v.id ∧ v.mapping.sideWindow w = w' := by
    simp [SideCall.delivered, View.sideKey, eq_comm (a := w')]
  rw [isReady_add, values_add, Ne, List.append_eq_nil_iff, not_and_or, h v w, ← hdelivered]

theorem Filled.materialize (h : s.Filled) (e : Element SideValue) : (s.materialize u e).Filled := by
  unfold SideInputs.materialize
  exact List.foldlRecOn e.windows _ h fun _ hs w' _ => hs.add w' e.value

theorem Filled.call (h : s.Filled) (c : SideCall) : (s.call c).Filled := by
  cases c with
  | add view window value => exact h.add window value
  | materialize view element => exact h.materialize element

theorem values_call (c : SideCall) :
    (s.call c).values v w = s.values v w ++ c.delivered (v.sideKey w) := by
  cases c with
  | add view window value => exact values_add window value
  | materialize view element => exact values_materialize element

theorem filled_ofCalls (cs : List SideCall) : (ofCalls cs).Filled :=
  List.foldlRecOn cs _ filled_empty fun _ hs c _ => hs.call c

theorem values_ofCalls (cs : List SideCall) :
    (ofCalls cs).values v w = SideCall.history (v.sideKey w) cs := by
  have hfold (s : SideInputs) : (cs.foldl call s).values v w =
      s.values v w ++ SideCall.history (v.sideKey w) cs := by
    induction cs generalizing s with
    | nil => exact (List.append_nil _).symm
    | cons c cs ih =>
      rw [List.foldl_cons, ih, values_call, List.append_assoc, SideCall.history,
        SideCall.history, List.flatMap_cons]
  rw [ofCalls, hfold]
  rfl

theorem isReady_ofCalls (cs : List SideCall) :
    (ofCalls cs).isReady v w = true ↔ SideCall.history (v.sideKey w) cs ≠ [] := by
  rw [filled_ofCalls cs v w, values_ofCalls]

theorem isReady_ofCalls_append {cs : List SideCall} (h : (ofCalls cs).isReady v w = true)
    (ds : List SideCall) : (ofCalls (cs ++ ds)).isReady v w = true := by
  rw [isReady_ofCalls] at h ⊢
  rw [SideCall.history, List.flatMap_append]
  exact List.append_ne_nil_of_left_ne_nil h _

theorem receive_empty (views : List View) (arrivals : List (Nat × Element SideValue)) :
    arrivals.foldl (SideInputReader.receive views) empty =
      ofCalls (SideCall.ofArrivals views arrivals) := by
  rw [ofCalls, SideCall.ofArrivals, List.foldl_filterMap]
  congr 1
  funext s arrival
  unfold SideInputReader.receive
  cases views[arrival.1]? <;> rfl

end SideInputs

namespace DefaultReader

theorem lasting : SideInputReader.Lasting DefaultReader := by
  intro reader u v e w h
  cases reader with
  | absent => exact h
  | materialized s => exact (SideInputs.isReady_materialize e).2 (Or.inl h)

theorem receive_materialized (views : List View) (s : SideInputs)
    (arrivals : List (Nat × Element SideValue)) :
    arrivals.foldl (SideInputReader.receive views) (materialized s) =
      materialized (arrivals.foldl (SideInputReader.receive views) s) := by
  induction arrivals generalizing s with
  | nil => rfl
  | cons arrival arrivals ih =>
    have hstep : SideInputReader.receive views (materialized s) arrival =
        materialized (SideInputReader.receive views s arrival) := by
      unfold SideInputReader.receive
      cases views[arrival.1]? <;> rfl
    rw [List.foldl_cons, List.foldl_cons, hstep, ih]

theorem forViews_of_ne_nil {views : List View} (h : views ≠ []) :
    forViews views = materialized .empty := by
  unfold forViews
  rw [List.isEmpty_eq_false_iff.2 h]
  rfl

theorem isReady_receive_perm (views : List View) {xs ys : List (Nat × Element SideValue)}
    (h : xs.Perm ys) (s : SideInputs) (v : View) (w : Window) :
    SideInputReader.isReady (xs.foldl (SideInputReader.receive views) (materialized s)) v w =
      SideInputReader.isReady (ys.foldl (SideInputReader.receive views) (materialized s)) v w := by
  rw [receive_materialized, receive_materialized, Bool.eq_iff_iff]
  have hmem (arrivals : List (Nat × Element SideValue)) :
      SideInputReader.isReady (materialized (arrivals.foldl (SideInputReader.receive views) s)) v w =
        true ↔ _ := SideInputs.isReady_receive views arrivals
  simp only [hmem, h.mem_iff]

end DefaultReader

end StreamOperator
