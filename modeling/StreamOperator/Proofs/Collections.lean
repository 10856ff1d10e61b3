import Mathlib.Data.List.Induction
import Mathlib.Data.List.Nodup
import Mathlib.Data.List.Sort
import Mathlib.Data.List.TakeDrop
import Std.Data.ExtTreeMap

/-! Lists, finite maps and results that may be errors: facts that the library leaves out. -/

theorem Except.bind_eq_ok_iff {ε α β : Type} {x : Except ε α} {f : α → Except ε β} {b : β} :
    (x >>= f) = .ok b ↔ ∃ a, x = .ok a ∧ f a = .ok b := by
  cases x <;> simp [bind, Except.bind]

namespace List

variable {α β γ ε : Type}

theorem max?_concat [Max α] (xs : List α) (x : α) :
    (xs ++ [x]).max? = some (xs.max?.elim x (max · x)) := by
  cases xs with
  | nil => rfl
  | cons y ys => rw [cons_append, max?_cons', max?_cons', foldl_append]; rfl

theorem span_append {p : α → Bool} {xs ys : List α} (hxs : ∀ x ∈ xs, p x = true)
    (hys : ∀ y ∈ ys.head?, p y = false) : (xs ++ ys).span p = (xs, ys) := by
  rw [span_eq_takeWhile_dropWhile, takeWhile_append_of_pos hxs, dropWhile_append_of_pos hxs]
  cases ys with
  | nil => simp
  | cons y ys => simp [hys y rfl]

theorem lookup_mapIdx [BEq α] [LawfulBEq α] (xs : List α) (f : Nat → β) (x : α) :
    (xs.mapIdx fun index x => (x, f index)).lookup x = (xs.idxOf? x).map f := by
  induction xs generalizing f with
  | nil => rfl
  | cons first xs ih =>
    rw [mapIdx_cons, lookup_cons, idxOf?_cons, Bool.beq_comm (a := x)]
    cases hfirst : first == x
    · simp [ih fun index => f (index + 1), Function.comp_def]
    · simp

theorem filter_fst_eq_singleton [BEq α] [LawfulBEq α] {entries : List (α × β)}
    (h : (entries.map Prod.fst).Nodup) {entry : α × β} (hentry : entry ∈ entries) :
    entries.filter (·.1 == entry.1) = [entry] := by
  induction entries with
  | nil => cases hentry
  | cons first entries ih =>
    obtain ⟨hfirst, hentries⟩ := nodup_cons.1 h
    cases mem_cons.1 hentry with
    | inl heq =>
      subst heq
      have hrest : entries.filter (·.1 == entry.1) = [] := by
        apply filter_eq_nil_iff.2
        intro x hx
        have hne : x.1 ≠ entry.1 := fun heq => hfirst (heq ▸ mem_map_of_mem hx)
        simpa using hne
      rw [filter_cons_of_pos (by simp), hrest]
    | inr hentry =>
      have hne : first.1 ≠ entry.1 := fun heq => hfirst (heq ▸ mem_map_of_mem hentry)
      rw [filter_cons_of_neg (by simpa using hne), ih hentries hentry]

theorem eq_of_ordered_of_mem_iff [Ord β] [Std.TransOrd β] {f : α → β} {xs ys : List α}
    (hxs : xs.Pairwise fun a b => compare (f a) (f b) = .lt)
    (hys : ys.Pairwise fun a b => compare (f a) (f b) = .lt) (hmem : ∀ a, a ∈ xs ↔ a ∈ ys) :
    xs = ys := by
  have : Std.Antisymm fun a b : α => compare (f a) (f b) = .lt := by
    constructor
    intro a b hab hba
    rw [Std.OrientedCmp.gt_of_lt hab] at hba
    cases hba
  have : Std.Irrefl fun a b : α => compare (f a) (f b) = .lt := by
    constructor
    intro a haa
    rw [Std.ReflOrd.compare_self] at haa
    cases haa
  exact hxs.eq_of_mem_iff hys hmem

theorem mapM_map_eq_some {f : β → Option γ} {g : α → γ} {e : α → β} (xs : List α)
    (h : ∀ x ∈ xs, f (e x) = some (g x)) : (xs.map e).mapM f = some (xs.map g) := by
  induction xs with
  | nil => rfl
  | cons x xs ih =>
    obtain ⟨hx, hxs⟩ := forall_mem_cons.1 h
    rw [map_cons, mapM_cons, hx, ih hxs]
    rfl

theorem exists_mapM_eq_ok_iff {f : α → Except ε β} {xs : List α} :
    (∃ ys, xs.mapM f = .ok ys) ↔ ∀ x ∈ xs, ∃ y, f x = .ok y := by
  induction xs with
  | nil => exact iff_of_true ⟨[], rfl⟩ fun x hx => by cases hx
  | cons x xs ih =>
    rw [forall_mem_cons, ← ih]
    simp only [mapM_cons, Except.bind_eq_ok_iff]
    constructor
    · intro h
      obtain ⟨_, y, hy, ys, hys, -⟩ := h
      exact ⟨⟨y, hy⟩, ys, hys⟩
    · intro h
      obtain ⟨⟨y, hy⟩, ys, hys⟩ := h
      exact ⟨y :: ys, y, hy, ys, hys, rfl⟩

section DecidableEq

variable [DecidableEq γ]

theorem eraseDups_concat (xs : List γ) (x : γ) :
    (xs ++ [x]).eraseDups = if x ∈ xs then xs.eraseDups else xs.eraseDups ++ [x] := by
  rw [eraseDups_append]
  by_cases h : x ∈ xs <;> simp [removeAll, h, eraseDups_cons]

theorem nodup_eraseDups (xs : List γ) : xs.eraseDups.Nodup := by
  induction xs using reverseRecOn with
  | nil => exact nodup_nil
  | append_singleton xs x ih =>
    rw [eraseDups_concat]
    by_cases h : x ∈ xs
    · rwa [if_pos h]
    · rw [if_neg h, nodup_append]
      refine ⟨ih, nodup_singleton x, ?_⟩
      intro y hy z hz heq
      rw [heq, mem_singleton.1 hz, mem_eraseDups] at hy
      exact h hy

theorem flatMap_filter_perm (label : β → Option γ) {labels : List γ} (hlabels : labels.Nodup)
    {es : List β} (h : ∀ e ∈ es, ∃ l ∈ labels, label e = some l) :
    (labels.flatMap fun l => es.filter (label · = some l)).Perm es := by
  induction labels generalizing es with
  | nil =>
    have hnone : es = [] := eq_nil_iff_forall_not_mem.2 fun e he => by simpa using h e he
    simp [hnone]
  | cons l labels ih =>
    obtain ⟨hl, hlabels⟩ := nodup_cons.1 hlabels
    have hothers : (labels.flatMap fun l' => es.filter (label · = some l')) =
        labels.flatMap fun l' => (es.filter (! label · = some l)).filter (label · = some l') := by
      apply flatMap_congr
      intro l' hl'
      rw [filter_filter]
      apply filter_congr
      intro e _
      by_cases he : label e = some l'
      · have hne : l' ≠ l := fun heq => hl (heq ▸ hl')
        simp [he, hne]
      · simp [he]
    have hlabelled : ∀ e ∈ es.filter (! label · = some l), ∃ l ∈ labels, label e = some l := by
      intro e he
      obtain ⟨hmem, hne⟩ := mem_filter.1 he
      obtain ⟨l', hl', hlabel⟩ := h e hmem
      cases mem_cons.1 hl' with
      | inl heq => simp [hlabel, heq] at hne
      | inr hl' => exact ⟨l', hl', hlabel⟩
    rw [flatMap_cons, hothers]
    exact ((ih hlabels hlabelled).append_left _).trans (filter_append_perm _ es)

end DecidableEq

end List

theorem Std.ExtTreeMap.values_eq_map_toList {α β : Type} {cmp : α → α → Ordering}
    [Std.TransCmp cmp] (m : Std.ExtTreeMap α β cmp) : m.values = m.toList.map Prod.snd := by
  have hfold : m.values = m.foldr (fun _ b bs => b :: bs) [] := by
    rcases m with ⟨⟨m⟩⟩
    induction m using Quotient.ind
    rfl
  rw [hfold, Std.ExtTreeMap.foldr_eq_foldr_toList]
  induction m.toList with
  | nil => rfl
  | cons entry entries ih => rw [List.foldr_cons, ih, List.map_cons]
