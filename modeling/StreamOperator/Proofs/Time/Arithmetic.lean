import StreamOperator.Proofs.Time.Instant

/-! Instants moved forward and back. Both moves stop at the ends of the range. A duration above the
greatest signed word of milliseconds counts for just that word, and so an instant before the epoch
is then moved less far than the duration says. -/

namespace StreamOperator

namespace Duration

variable {d d' : Duration}

def IsWhole (d : Duration) : Prop := d.nanos % 1000000 = 0

instance (d : Duration) : Decidable d.IsWhole := inferInstanceAs (Decidable (_ = _))

theorem millis_mono (h : d ≤ d') : d.millis ≤ d'.millis := Nat.div_le_div_right h

theorem millis_add (hwhole : d'.IsWhole) (h : d.nanos + d'.nanos < limit) :
    (d + d').millis = d.millis + d'.millis := by
  have hnanos : (d + d').nanos = d.nanos + d'.nanos := nanos_ofNanos h
  unfold IsWhole at hwhole
  unfold millis
  omega

end Duration

namespace Instant

variable {t t' : Instant} {d d' : Duration}

theorem eq_iff_toInt : t = t' ↔ t.millis.toInt = t'.millis.toInt := by
  rw [Int64.toInt_inj, Instant.ext_iff]

theorem toInt_advance (t : Instant) (d : Duration) :
    (t.advance d).millis.toInt =
      min (t.millis.toInt + min (d.millis : Int) Int64.maxValue.toInt) Int64.maxValue.toInt := by
  -- No instant is so early that the infinite past is reached on the way forward.
  have hpast : Int64.minValue.toInt ≤ t.millis.toInt := le_iff_toInt.1 t.negInf_le
  rw [advance, toInt_clamp, Int64.toInt_maxValue]
  rw [Int64.toInt_minValue] at hpast ⊢
  omega

theorem toInt_retreat (t : Instant) (n : Int64) :
    (t.retreat n).millis.toInt =
      max Int64.minValue.toInt (min (t.millis.toInt - n.toInt) Int64.maxValue.toInt) :=
  toInt_clamp _

theorem advance_mono (ht : t ≤ t') (hd : d ≤ d') : t.advance d ≤ t'.advance d' := by
  have hmillis := Duration.millis_mono hd
  rw [le_iff_toInt] at ht ⊢
  rw [toInt_advance, toInt_advance]
  omega

/-- From the epoch on the exact sum is out of range anyway where the duration is cut. -/
theorem toInt_advance_eq_iff :
    (t.advance d).millis.toInt = min (t.millis.toInt + d.millis) Int64.maxValue.toInt ↔
      (d.millis : Int) ≤ Int64.maxValue.toInt ∨ 0 ≤ t.millis.toInt := by
  rw [toInt_advance, Int64.toInt_maxValue]
  omega

theorem advance_advance_eq_iff (hmillis : (d + d').millis = d.millis + d'.millis) :
    (t.advance d).advance d' = t.advance (d + d') ↔
      (d.millis + d'.millis : Int) ≤ Int64.maxValue.toInt ∨ 0 ≤ t.millis.toInt ∨
        d.millis = 0 ∨ d'.millis = 0 := by
  have hfuture : t.millis.toInt ≤ Int64.maxValue.toInt := le_iff_toInt.1 t.le_posInf
  rw [eq_iff_toInt, toInt_advance, toInt_advance, toInt_advance, hmillis]
  rw [Int64.toInt_maxValue] at hfuture ⊢
  omega

/-- Both moves stop at the ends of the range. Moving back is exact up to there, and so is moving
forward, except from before the epoch by a duration above the greatest signed word of milliseconds.
Moving forward reverses no order, of instants or of durations. Two moves by whole milliseconds come
to the same as one by their sum, except from before the epoch where that sum is cut: there the two
get further, unless one of them is no move. -/
theorem saturates_exactly_iff (t : Instant) (d : Duration) (n : Int64) :
    let top := Int64.maxValue.toInt
    (t.advance d).millis.toInt = min (t.millis.toInt + min (d.millis : Int) top) top ∧
      ((t.advance d).millis.toInt = min (t.millis.toInt + d.millis) top ↔
        (d.millis : Int) ≤ top ∨ 0 ≤ t.millis.toInt) ∧
      (t.retreat n).millis.toInt =
        max Int64.minValue.toInt (min (t.millis.toInt - n.toInt) top) ∧
      (∀ t' d', t ≤ t' → d ≤ d' → t.advance d ≤ t'.advance d') ∧
      ∀ d' : Duration, d'.IsWhole → d.nanos + d'.nanos < Duration.limit →
        ((t.advance d).advance d' = t.advance (d + d') ↔
          (d.millis + d'.millis : Int) ≤ top ∨ 0 ≤ t.millis.toInt ∨
            d.millis = 0 ∨ d'.millis = 0) := by
  intro top
  refine ⟨t.toInt_advance d, toInt_advance_eq_iff, t.toInt_retreat n,
    fun t' d' => advance_mono, ?_⟩
  intro d' hwhole hsum
  exact advance_advance_eq_iff (Duration.millis_add hwhole hsum)

def dayBefore : Instant := ⟨-86400000⟩

/-- The sum of two durations is one above the greatest signed word, and is cut by that one. -/
theorem dayBefore_falls_short :
    let d := Duration.ofMillis 4611686018427387904
    (dayBefore.advance (d + d)).millis.toInt ≠
        min (dayBefore.millis.toInt + (d + d).millis) Int64.maxValue.toInt ∧
      (dayBefore.advance d).advance d ≠ dayBefore.advance (d + d) := by
  decide +kernel

theorem dayBefore_saturates :
    let d := Duration.ofMillis 4611686018427387904
    d.IsWhole ∧ d.nanos + d.nanos < Duration.limit ∧ dayBefore ≤ ⟨0⟩ ∧ d ≤ d + d ∧
      (dayBefore.advance d).millis.toInt = 4611686018340987904 ∧
      dayBefore.retreat Int64.maxValue = negInf ∧
      dayBefore.advance d ≤ advance ⟨0⟩ (d + d) ∧
      (dayBefore.advance d).advance d ≠ dayBefore.advance (d + d) := by
  intro d
  obtain ⟨-, hexact, hretreat, hmono, hsum⟩ := saturates_exactly_iff dayBefore d Int64.maxValue
  have hwhole : d.IsWhole := by decide +kernel
  have hlimit : d.nanos + d.nanos < Duration.limit := by decide +kernel
  have hbefore : dayBefore ≤ ⟨0⟩ := by decide +kernel
  have htwice : d ≤ d + d := by decide +kernel
  refine ⟨hwhole, hlimit, hbefore, htwice, ?_, ?_, hmono _ _ hbefore htwice, ?_⟩
  · exact (hexact.2 (by decide +kernel)).trans (by decide +kernel)
  · exact eq_iff_toInt.2 (hretreat.trans (by decide +kernel))
  · rw [ne_eq, hsum d hwhole hlimit]
    decide +kernel

end Instant

end StreamOperator
