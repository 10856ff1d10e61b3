import Mathlib.Order.Defs.LinearOrder
import StreamOperator.Time.Instant

/-! Instants are linearly ordered by their milliseconds. -/

namespace StreamOperator.Instant

instance : LinearOrder Instant where
  le_refl _ := le_iff_toInt.2 (Int.le_refl _)
  le_trans _ _ _ h h' := le_iff_toInt.2 (Int.le_trans (le_iff_toInt.1 h) (le_iff_toInt.1 h'))
  le_antisymm _ _ h h' := by
    have h := Int.le_antisymm (le_iff_toInt.1 h) (le_iff_toInt.1 h')
    exact Instant.ext (Int64.toInt_inj.1 h)
  le_total a b := by
    simp only [le_iff_toInt]
    exact Int.le_total _ _
  lt_iff_le_not_ge a b := by
    simp only [le_iff_toInt, lt_iff_toInt]
    omega
  toDecidableLE := inferInstance
  toDecidableLT := inferInstance
  toDecidableEq := inferInstance
  min_def _ _ := rfl
  max_def _ _ := rfl
  compare_eq_compareOfLessAndEq a b := by
    show compare a.millis b.millis = _
    rw [show compare a.millis b.millis = compareOfLessAndEq a.millis b.millis from rfl]
    unfold compareOfLessAndEq
    have h : a.millis = b.millis ↔ a = b := ⟨Instant.ext, congrArg _⟩
    simp only [h]
    rfl

end StreamOperator.Instant
