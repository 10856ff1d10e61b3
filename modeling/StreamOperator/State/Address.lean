import StreamOperator.Key.Basic
import StreamOperator.Window.Format

/-! Addresses of state cells: an operator, the encoding of a key, a namespace within the key and a
tag. They are ordered by these parts in turn, the namespace of the whole key before its
windows. -/

namespace StreamOperator

open Json

/-- A part of the state or timers of a key: shared by all its windows, or one window's own. -/
inductive Namespace
  | global
  | window (window : Window)
deriving DecidableEq

namespace Namespace

def window? : Namespace → Option Window
  | global => none
  | window w => some w

theorem window?_injective {m n : Namespace} (h : m.window? = n.window?) : m = n := by
  cases m <;> cases n <;> simp_all [window?]

instance : Ord Namespace := ⟨compareOn window?⟩

instance : Std.TransOrd Namespace := inferInstanceAs (Std.TransCmp (compareOn window?))

instance : Std.LawfulEqOrd Namespace where
  eq_of_compare h := window?_injective (Std.LawfulEqOrd.eq_of_compare (α := Option Window) h)

def text : Namespace → String
  | global => "global"
  | window w => "window:" ++ w.text

def toDocument : Namespace → Document
  | global => .ofString "Global"
  | window w => .record [("Window", encode w)]

def ofDocument? (d : Document) : Option Namespace := do
  match ← d.case? with
  | ("Global", data) => if Document.isBare data then some global else none
  | ("Window", some data) => (decode? data).map window
  | _ => none

end Namespace

instance : Encode Namespace := ⟨Namespace.toDocument⟩

instance : Decode Namespace := ⟨Namespace.ofDocument?⟩

structure Address where
  operator : String
  key : Bytes
  space : Namespace
  tag : String
deriving DecidableEq

namespace Address

def order : Address → Address → Ordering :=
  compareLex (compareOn operator)
    (compareLex (compareOn key) (compareLex (compareOn space) (compareOn tag)))

instance : Ord Address := ⟨order⟩

instance : Std.TransOrd Address := by
  show Std.TransCmp order
  unfold order
  infer_instance

instance : Std.LawfulEqOrd Address where
  eq_of_compare {a b} h := by
    change order a b = .eq at h
    simp only [order, compareLex_eq_eq, compareOn, Std.LawfulEqOrd.compare_eq_iff_eq] at h
    obtain ⟨h₁, h₂, h₃, h₄⟩ := h
    cases a; cases b; cases h₁; cases h₂; cases h₃; cases h₄; rfl

def toDocument (a : Address) : Document :=
  .record [("operator", encode a.operator), ("key", encode a.key),
    ("namespace", encode a.space), ("tag", encode a.tag)]

def ofDocument? (d : Document) : Option Address := do
  match ← d.fields? ["operator", "key", "namespace", "tag"] with
  | [some operator, some key, some space, some tag] =>
    some ⟨← decode? operator, ← decode? key, ← decode? space, ← decode? tag⟩
  | _ => none

end Address

instance : Encode Address := ⟨Address.toDocument⟩

instance : Decode Address := ⟨Address.ofDocument?⟩

end StreamOperator
