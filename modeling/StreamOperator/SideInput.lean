import StreamOperator.Element
import StreamOperator.Error
import StreamOperator.Text.Quoted

/-! Side inputs: values that elements are processed beside. A view names a side input and says in
which of its windows an element finds its values. A reader tells whether a view is ready for a
window and looks its values up; values materialize in it as they arrive. -/

namespace StreamOperator

inductive WindowMapping
  | sameWindow
  | global
deriving DecidableEq

/-- The window of the side input that serves a window of the main input. -/
def WindowMapping.sideWindow : WindowMapping → Window → Window
  | sameWindow, w => w
  | global, _ => .global

structure View where
  id : String
  mapping : WindowMapping
deriving DecidableEq

inductive SideValue
  | integer (n : Int64)
  | text (s : String)
deriving DecidableEq

namespace SideValue

def integer? : SideValue → Option Int64
  | integer n => some n
  | text _ => none

def text? : SideValue → Option String
  | integer _ => none
  | text s => some s

end SideValue

class SideInputReader (ρ : Type) where
  isReady : ρ → View → Window → Bool
  values : ρ → View → Window → List SideValue
  materialize : ρ → View → Element SideValue → ρ

/-- One window of one side input. -/
structure SideKey where
  id : String
  window : Window
deriving DecidableEq

namespace SideKey

def order : SideKey → SideKey → Ordering := compareLex (compareOn id) (compareOn window)

instance : Ord SideKey := ⟨order⟩

instance : Std.TransOrd SideKey := by
  show Std.TransCmp order
  unfold order
  infer_instance

instance : Std.LawfulEqOrd SideKey where
  eq_of_compare {a b} h := by
    change order a b = .eq at h
    simp only [order, compareLex_eq_eq, compareOn, Std.LawfulEqOrd.compare_eq_iff_eq] at h
    obtain ⟨h₁, h₂⟩ := h
    cases a; cases b; cases h₁; cases h₂; rfl

end SideKey

def View.sideKey (v : View) (w : Window) : SideKey := ⟨v.id, v.mapping.sideWindow w⟩

/-- Materialized values, those of one window of one side input in the order of arrival. -/
structure SideInputs where
  entries : Std.ExtTreeMap SideKey (List SideValue)

namespace SideInputs

def empty : SideInputs := ⟨∅⟩

instance : Inhabited SideInputs := ⟨empty⟩

def add (s : SideInputs) (v : View) (w : Window) (x : SideValue) : SideInputs :=
  let key : SideKey := ⟨v.id, w⟩
  ⟨s.entries.insert key (s.entries.getD key [] ++ [x])⟩

/-- Adds a value in each window of its element. -/
def materialize (s : SideInputs) (v : View) (e : Element SideValue) : SideInputs :=
  e.windows.foldl (fun s w => s.add v w e.value) s

def isReady (s : SideInputs) (v : View) (w : Window) : Bool := s.entries.contains (v.sideKey w)

def values (s : SideInputs) (v : View) (w : Window) : List SideValue :=
  s.entries.getD (v.sideKey w) []

def size (s : SideInputs) : Nat := s.entries.size

def isEmpty (s : SideInputs) : Bool := s.entries.isEmpty

def windowText : Window → String
  | .global => "Global"
  | .interval start stop =>
    "Interval \x7b start: Instant(" ++ toString start.millis.toInt ++ "), end: Instant("
      ++ toString stop.millis.toInt ++ ") \x7d"

def keyText (k : SideKey) : String :=
  "(" ++ Text.quote k.id ++ ", " ++ windowText k.window ++ ")"

def text (s : SideInputs) : String :=
  "SideInputHandler \x7b materialized: ["
    ++ String.intercalate ", " (s.entries.keys.map keyText) ++ "] \x7d"

instance : SideInputReader SideInputs := ⟨isReady, values, materialize⟩

theorem isReady_iff {s : SideInputs} {v : View} {w : Window} :
    s.isReady v w = true ↔ v.sideKey w ∈ s.entries := Iff.rfl

end SideInputs

/-- The reader of an operator without side inputs: always ready, and without values. -/
structure NoSideInputs

instance : SideInputReader NoSideInputs where
  isReady _ _ _ := true
  values _ _ _ := []
  materialize r _ _ := r

/-- The reader an operator is given when it names none itself. -/
inductive DefaultReader
  | absent
  | materialized (inputs : SideInputs)

namespace DefaultReader

/-- Values are materialized only where a view is declared. -/
def forViews (views : List View) : DefaultReader :=
  if views.isEmpty then absent else materialized .empty

instance : SideInputReader DefaultReader where
  isReady
    | absent, _, _ => true
    | materialized s, v, w => s.isReady v w
  values
    | absent, _, _ => []
    | materialized s, v, w => s.values v w
  materialize
    | absent, _, _ => absent
    | materialized s, v, e => materialized (s.materialize v e)

end DefaultReader

end StreamOperator
