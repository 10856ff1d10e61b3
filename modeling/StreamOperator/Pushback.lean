import StreamOperator.SideInput

/-! Elements that wait for side inputs, in the order of arrival, with the least of their
timestamps; the least timestamp of nothing is the infinite future. An element is split by its
windows: a window is ready when every view is ready for it. -/

namespace StreamOperator

structure PushbackBuffer (α : Type) where
  elements : List (Element α)
  minTimestamp : Instant

namespace PushbackBuffer

variable {α : Type}

def empty : PushbackBuffer α := ⟨[], .posInf⟩

instance : Inhabited (PushbackBuffer α) := ⟨empty⟩

def push (b : PushbackBuffer α) (e : Element α) : PushbackBuffer α :=
  ⟨b.elements ++ [e], min b.minTimestamp e.timestamp⟩

def extend (b : PushbackBuffer α) (es : List (Element α)) : PushbackBuffer α := es.foldl push b

def leastTimestamp (es : List (Element α)) : Instant :=
  (es.map Element.timestamp).foldl min .posInf

def ofList (es : List (Element α)) : PushbackBuffer α := ⟨es, leastTimestamp es⟩

def size (b : PushbackBuffer α) : Nat := b.elements.length

def isEmpty (b : PushbackBuffer α) : Bool := b.elements.isEmpty

@[simp] theorem elements_push (b : PushbackBuffer α) (e : Element α) :
    (b.push e).elements = b.elements ++ [e] := rfl

@[simp] theorem elements_extend (b : PushbackBuffer α) (es : List (Element α)) :
    (b.extend es).elements = b.elements ++ es := by
  induction es generalizing b with
  | nil => simp [extend]
  | cons e es ih =>
    have h := ih (b.push e)
    simp only [extend, List.foldl_cons] at h ⊢
    rw [h]; simp

@[simp] theorem elements_ofList (es : List (Element α)) : (ofList es).elements = es := rfl

end PushbackBuffer

/-- An element by readiness: what to process now, and what to keep, one value for each window that
is not ready. -/
structure ReadySplit (α : Type) where
  ready : List (Element α)
  pushedBack : List (Element α)

namespace ReadySplit

variable {α ρ : Type} [SideInputReader ρ]

def isFullyReady (s : ReadySplit α) : Bool := s.pushedBack.isEmpty

def windowReady (views : List View) (reader : ρ) (w : Window) : Bool :=
  views.all fun v => SideInputReader.isReady reader v w

/-- Where nothing is looked up, or there is no window to look in, the element stays whole. -/
def ofElement (e : Element α) (views : List View) (reader : ρ) : ReadySplit α :=
  if views.isEmpty || e.windows.isEmpty then ⟨[e], []⟩
  else
    let (ready, pushedBack) :=
      e.explode.partition fun piece => piece.windows.all (windowReady views reader)
    ⟨ready, pushedBack⟩

end ReadySplit

end StreamOperator
