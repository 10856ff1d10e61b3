import Std.Data.ExtTreeMap
import StreamOperator.Time.Duration

/-! Event-time instants in whole milliseconds over the signed 64-bit range. The two ends of
the range stand for the infinite past and the infinite future, and arithmetic stops there. -/

namespace StreamOperator

structure Instant where
  millis : Int64
deriving DecidableEq

namespace Instant

/-- The infinite past: the first watermark of every operator. -/
def negInf : Instant := ⟨Int64.minValue⟩

/-- The infinite future: the watermark of a finished input, and the hold of an empty buffer. -/
def posInf : Instant := ⟨Int64.maxValue⟩

instance : Inhabited Instant := ⟨negInf⟩

instance : Ord Instant := ⟨compareOn millis⟩

instance : Std.TransOrd Instant := inferInstanceAs (Std.TransCmp (compareOn millis))

instance : Std.LawfulEqOrd Instant where
  eq_of_compare {a b} h := by
    have : a.millis = b.millis := Std.LawfulEqOrd.eq_of_compare (α := Int64) h
    cases a; cases b; cases this; rfl

instance : LE Instant := ⟨fun a b => a.millis ≤ b.millis⟩

instance : LT Instant := ⟨fun a b => a.millis < b.millis⟩

instance (a b : Instant) : Decidable (a ≤ b) := inferInstanceAs (Decidable (a.millis ≤ b.millis))

instance (a b : Instant) : Decidable (a < b) := inferInstanceAs (Decidable (a.millis < b.millis))

instance : Min Instant := minOfLe

instance : Max Instant := maxOfLe

def isInfinite (t : Instant) : Bool := t == negInf || t == posInf

/-- The instant at `n` milliseconds, or the nearer end when `n` lies outside the range. -/
def clamp (n : Int) : Instant :=
  if n ≤ Int64.minValue.toInt then negInf
  else if Int64.maxValue.toInt ≤ n then posInf
  else ⟨Int64.ofInt n⟩

/-- Moves forward by the whole milliseconds of a duration. A duration counts for at most
the greatest signed word of milliseconds. -/
def advance (t : Instant) (d : Duration) : Instant :=
  clamp (t.millis.toInt + min (d.millis : Int) Int64.maxValue.toInt)

/-- Moves back by a signed number of milliseconds. -/
def retreat (t : Instant) (n : Int64) : Instant :=
  clamp (t.millis.toInt - n.toInt)

def text (t : Instant) : String :=
  if t = negInf then "-inf"
  else if t = posInf then "+inf"
  else toString t.millis.toInt ++ "ms"

@[ext] theorem ext {a b : Instant} (h : a.millis = b.millis) : a = b := by
  cases a; cases b; cases h; rfl

theorem le_iff_toInt {a b : Instant} : a ≤ b ↔ a.millis.toInt ≤ b.millis.toInt :=
  Int64.le_iff_toInt_le

theorem lt_iff_toInt {a b : Instant} : a < b ↔ a.millis.toInt < b.millis.toInt :=
  Int64.lt_iff_toInt_lt

theorem negInf_le (t : Instant) : negInf ≤ t :=
  le_iff_toInt.2 (Int64.le_toInt t.millis)

theorem le_posInf (t : Instant) : t ≤ posInf :=
  le_iff_toInt.2 (Int64.toInt_le t.millis)

theorem toInt_clamp (n : Int) :
    (clamp n).millis.toInt = max Int64.minValue.toInt (min n Int64.maxValue.toInt) := by
  have hlo : Int64.minValue.toInt = -9223372036854775808 := by decide
  have hhi : Int64.maxValue.toInt = 9223372036854775807 := by decide
  unfold clamp
  split
  · simp only [negInf]; omega
  · split
    · simp only [posInf]; omega
    · rw [Int64.toInt_ofInt_of_le] <;> omega

end Instant

end StreamOperator
