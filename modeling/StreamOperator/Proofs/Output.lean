import StreamOperator.Output
import StreamOperator.Proofs.Collections

/-! Channels and their tags. A table binds each of its tags to a channel of its own, and what is
emitted under a tag is what its channel gives, in the same order. -/

namespace StreamOperator

namespace OutputTable

variable {main : String} {side : List String} {capacity : Nat} {t : OutputTable} {tag tag' : String}
  {channel : Channel}

theorem firstRepeated?_eq_none_iff {seen tags : List String} :
    firstRepeated? seen tags = none ↔ tags.Nodup ∧ ∀ tag ∈ tags, tag ∉ seen := by
  induction tags generalizing seen with
  | nil => simp [firstRepeated?]
  | cons tag tags ih =>
    by_cases hseen : tag ∈ seen
    · simp [firstRepeated?, hseen]
    · simp only [firstRepeated?, hseen, if_false, ih, List.nodup_cons, List.mem_cons]
      grind

theorem create_eq_ok_iff :
    create main side capacity = .ok t ↔
      side.length ≤ capacity ∧ (main :: side).Nodup ∧ t = ⟨main, side⟩ := by
  have hrepeated : firstRepeated? [main] side = none ↔ (main :: side).Nodup := by
    rw [firstRepeated?_eq_none_iff, List.nodup_cons]
    grind
  unfold create
  by_cases hroom : side.length > capacity
  · simp [hroom, Nat.not_le.2 hroom]
  · rw [if_neg hroom, ← hrepeated]
    cases firstRepeated? [main] side <;> simp [Nat.not_lt.1 hroom, eq_comm]

theorem isSome_channel?_iff : (t.channel? tag).isSome ↔ tag ∈ t.main :: t.side := by
  unfold channel?
  by_cases hmain : tag = t.main <;> simp [hmain, List.isSome_idxOf?]

theorem channel?_side (h : (t.main :: t.side).Nodup) (htag : tag ∈ t.side) :
    t.channel? tag = (t.side.idxOf? tag).map .side := by
  have hmain : tag ≠ t.main := by
    rintro rfl
    exact (List.nodup_cons.1 h).1 htag
  rw [channel?, if_neg hmain]

theorem eq_main_of_channel? (h : t.channel? tag = some .main) : tag = t.main := by
  unfold channel? at h
  split at h
  · assumption
  · simp at h

theorem getElem?_of_channel? {index : Nat} (h : t.channel? tag = some (.side index)) :
    t.side[index]? = some tag := by
  unfold channel? at h
  split at h
  · cases h
  · simp only [Option.map_eq_some_iff, Channel.side.injEq, exists_eq_right,
      List.idxOf?_eq_some_iff] at h
    exact List.getElem?_eq_some_iff.2 ⟨h.1, h.2.1⟩

theorem channel?_injective (h : t.channel? tag = some channel) (h' : t.channel? tag' = some channel) :
    tag = tag' := by
  cases channel with
  | main => rw [eq_main_of_channel? h, eq_main_of_channel? h']
  | side index =>
    exact Option.some.inj ((getElem?_of_channel? h).symm.trans (getElem?_of_channel? h'))

/-- What was emitted under tags, by the channels that the tags are bound to. -/
def resolve {β : Type} (t : OutputTable) (emissions : List (String × Element β)) :
    List (Channel × Element β) :=
  emissions.filterMap fun (tag, e) => (t.channel? tag).map (·, e)

@[simp] theorem resolve_append {β : Type} (t : OutputTable) (xs ys : List (String × Element β)) :
    t.resolve (xs ++ ys) = t.resolve xs ++ t.resolve ys := List.filterMap_append

end OutputTable

namespace Outputs

variable {β : Type} {t : OutputTable} {tag : String} {channel : Channel}

def underTag (tag : String) (emissions : List (String × Element β)) : List (Element β) :=
  emissions.filterMap fun (t, e) => if t = tag then some e else none

theorem onChannel_map {γ : Type} (channel channel' : Channel) (f : γ → Element β) (xs : List γ) :
    onChannel channel (xs.map fun x => (channel', f x)) =
      if channel' = channel then xs.map f else [] := by
  simp only [onChannel, List.filterMap_map, Function.comp_def]
  split <;> simp

theorem onChannel_resolve (h : t.channel? tag = some channel)
    (emissions : List (String × Element β)) :
    onChannel channel (t.resolve emissions) = underTag tag emissions := by
  induction emissions with
  | nil => rfl
  | cons emission emissions ih =>
    obtain ⟨tag', e⟩ := emission
    by_cases htag : tag' = tag
    · simp_all [onChannel, OutputTable.resolve, underTag]
    · have hother : t.channel? tag' ≠ some channel := fun h' =>
        htag (OutputTable.channel?_injective h' h)
      cases hchannel : t.channel? tag' <;>
        simp_all [onChannel, OutputTable.resolve, underTag]

theorem side?_ofEmissions (t : OutputTable) (emitted : List (Channel × Element β)) (tag : String) :
    (ofEmissions t emitted).side? tag =
      (t.side.idxOf? tag).map fun index => onChannel (.side index) emitted :=
  List.lookup_mapIdx t.side _ tag

theorem side?_resolve (h : (t.main :: t.side).Nodup) (htag : tag ∈ t.side)
    (emissions : List (String × Element β)) :
    (ofEmissions t (t.resolve emissions)).side? tag = some (underTag tag emissions) := by
  have hchannel := OutputTable.channel?_side h htag
  obtain ⟨index, hindex⟩ := Option.isSome_iff_exists.1 (List.isSome_idxOf?.2 htag)
  rw [hindex, Option.map_some] at hchannel
  rw [side?_ofEmissions, hindex, Option.map_some, onChannel_resolve hchannel]

theorem mainData_resolve (t : OutputTable) (emissions : List (String × Element β)) :
    (ofEmissions t (t.resolve emissions)).mainData = underTag t.main emissions := by
  have hchannel : t.channel? t.main = some .main := if_pos rfl
  rw [mainData_ofEmissions, onChannel_resolve hchannel]

end Outputs

end StreamOperator
