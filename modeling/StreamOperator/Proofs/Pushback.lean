import Mathlib.Data.List.Induction
import Mathlib.Data.List.Perm.Basic
import Mathlib.Order.MinMax
import StreamOperator.Proofs.Time.Instant
import StreamOperator.Pushback

/-! The hold of a buffer, which is the least timestamp in it, and the pieces of an element, of which
a split by readiness loses none. -/

namespace StreamOperator

variable {α ρ : Type}

namespace PushbackBuffer

/-- An instant that holds these elements back as far as they need and no further. -/
structure IsHold (es : List (Element α)) (t : Instant) : Prop where
  le : ∀ e ∈ es, t ≤ e.timestamp
  attained : es = [] ∧ t = .posInf ∨ ∃ e ∈ es, e.timestamp = t

theorem leastTimestamp_concat (es : List (Element α)) (e : Element α) :
    leastTimestamp (es ++ [e]) = min (leastTimestamp es) e.timestamp := by
  simp [leastTimestamp]

theorem isHold_leastTimestamp (es : List (Element α)) : IsHold es (leastTimestamp es) := by
  induction es using List.reverseRecOn with
  | nil => exact ⟨by simp, Or.inl ⟨rfl, rfl⟩⟩
  | append_singleton es e ih =>
    rw [leastTimestamp_concat]
    refine ⟨?_, Or.inr ?_⟩
    · intro f hf
      rcases List.mem_append.1 hf with hf | hf
      · exact le_trans (min_le_left _ _) (ih.le f hf)
      · rw [List.mem_singleton.1 hf]
        exact min_le_right _ _
    · rcases min_choice (leastTimestamp es) e.timestamp with h | h
      · rcases ih.attained with ⟨rfl, -⟩ | ⟨f, hf, ht⟩
        · refine ⟨e, by simp, ?_⟩
          rw [h]
          exact le_antisymm (Instant.le_posInf _) (min_eq_left_iff.1 h)
        · exact ⟨f, by simp [hf], by rw [h, ht]⟩
      · exact ⟨e, by simp, h.symm⟩

theorem push_ofList (es : List (Element α)) (e : Element α) :
    (ofList es).push e = ofList (es ++ [e]) := by
  simp only [ofList, push, leastTimestamp_concat]

theorem extend_append (b : PushbackBuffer α) (es fs : List (Element α)) :
    b.extend (es ++ fs) = (b.extend es).extend fs :=
  List.foldl_append

theorem extend_ofList (es fs : List (Element α)) : (ofList es).extend fs = ofList (es ++ fs) := by
  induction fs generalizing es with
  | nil => simp [extend]
  | cons f fs ih =>
    rw [List.append_cons, ← ih, ← push_ofList]
    rfl

end PushbackBuffer

namespace Element

/-- What becomes of an element when it is processed: one value for each of its windows, or the
element itself where there is nothing to look up or no window to look in. -/
def pieces (views : List View) (e : Element α) : List (Element α) :=
  if views.isEmpty || e.windows.isEmpty then [e] else e.explode

theorem pieces_of_windows_eq {views : List View} {e : Element α} {w : Window}
    (h : e.windows = [w]) : e.pieces views = [e] := by
  have hw : { e with windows := [w] } = e := by rw [← h]
  simp [pieces, explode, h, hw]

theorem eq_of_mem_pieces {views : List View} {e p : Element α} (h : p ∈ e.pieces views) :
    p = { e with windows := p.windows } := by
  unfold pieces at h
  split at h
  · rw [List.mem_singleton.1 h]
  · obtain ⟨w, -, rfl⟩ := mem_explode.1 h
    rfl

theorem timestamp_of_mem_pieces {views : List View} {e p : Element α} (h : p ∈ e.pieces views) :
    p.timestamp = e.timestamp := by
  rw [eq_of_mem_pieces h]

def waits [SideInputReader ρ] (views : List View) (reader : ρ) (e : Element α) : Bool :=
  e.windows.any fun w => views.any fun v => !SideInputReader.isReady reader v w

end Element

namespace ReadySplit

variable [SideInputReader ρ] {views : List View} {reader : ρ} {e p : Element α}

theorem ready_append_pushedBack_perm (e : Element α) (views : List View) (reader : ρ) :
    ((ofElement e views reader).ready ++ (ofElement e views reader).pushedBack).Perm
      (e.pieces views) := by
  unfold ofElement Element.pieces
  split
  · simp
  · simp only [List.partition_eq_filter_filter]
    exact List.filter_append_perm _ _

theorem value_of_mem_ready (h : p ∈ (ofElement e views reader).ready) : p.value = e.value := by
  have hpiece : p ∈ e.pieces views :=
    (ready_append_pushedBack_perm e views reader).subset (List.mem_append_left _ h)
  rw [Element.eq_of_mem_pieces hpiece]

theorem isReady_of_mem_ready (hviews : views ≠ []) (hp : p.windows ≠ [])
    (h : p ∈ (ofElement e views reader).ready) :
    ∃ w, p.windows = [w] ∧ ∀ v ∈ views, SideInputReader.isReady reader v w = true := by
  unfold ofElement at h
  split at h
  next hwhole =>
    rw [List.mem_singleton.1 h] at hp
    simp [hviews, hp] at hwhole
  next =>
    simp only [List.partition_eq_filter_filter, List.mem_filter, Element.mem_explode] at h
    obtain ⟨⟨w, -, rfl⟩, hready⟩ := h
    exact ⟨w, rfl, by simpa [windowReady] using hready⟩

theorem pushedBack_ofElement (e : Element α) (views : List View) (reader : ρ) :
    (ofElement e views reader).pushedBack = (e.pieces views).filter (Element.waits views reader) := by
  have hwaits (p : Element α) :
      p.waits views reader = !p.windows.all (windowReady views reader) := by
    simp [Element.waits, windowReady, List.not_all_eq_any_not]
  unfold ofElement Element.pieces
  split
  next h =>
    rcases Bool.or_eq_true_iff.1 h with hviews | hwindows
    · simp [Element.waits, List.isEmpty_iff.1 hviews]
    · simp [Element.waits, List.isEmpty_iff.1 hwindows]
  next =>
    rw [List.partition_eq_filter_filter, funext hwaits]
    rfl

theorem pushedBack_of_no_views (h : views = []) : (ofElement e views reader).pushedBack = [] := by
  simp [ofElement, h]

theorem windows_of_mem_pushedBack (h : p ∈ (ofElement e views reader).pushedBack) :
    ∃ w, p.windows = [w] := by
  unfold ofElement at h
  split at h
  · simp at h
  · simp only [List.partition_eq_filter_filter, List.mem_filter, Element.mem_explode] at h
    obtain ⟨⟨w, -, rfl⟩, -⟩ := h
    exact ⟨w, rfl⟩

end ReadySplit

end StreamOperator
