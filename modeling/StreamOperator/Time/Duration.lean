/-! Spans of time with nanosecond grain. The longest one holds 2^64 - 1 seconds and
999999999 nanoseconds; sums stop there. -/

namespace StreamOperator

structure Duration where
  nanos : Nat
  nanos_lt : nanos < 18446744073709551616000000000
deriving DecidableEq

namespace Duration

def limit : Nat := 18446744073709551616000000000

def ofNanos (n : Nat) : Duration where
  nanos := min n (limit - 1)
  nanos_lt := by have := Nat.min_le_right n (limit - 1); unfold limit at *; omega

def ofMillis (n : UInt64) : Duration where
  nanos := n.toNat * 1000000
  nanos_lt := by have := n.toNat_lt; omega

def zero : Duration := ofMillis 0

instance : Inhabited Duration := ⟨zero⟩

instance : LE Duration := ⟨fun a b => a.nanos ≤ b.nanos⟩

instance : LT Duration := ⟨fun a b => a.nanos < b.nanos⟩

instance (a b : Duration) : Decidable (a ≤ b) := inferInstanceAs (Decidable (a.nanos ≤ b.nanos))

instance (a b : Duration) : Decidable (a < b) := inferInstanceAs (Decidable (a.nanos < b.nanos))

instance : Add Duration := ⟨fun a b => ofNanos (a.nanos + b.nanos)⟩

/-- Whole milliseconds; what is left below one is dropped. -/
def millis (d : Duration) : Nat := d.nanos / 1000000

/-- Whole milliseconds as a 64-bit word, the greatest word when there are more. -/
def millisWord (d : Duration) : UInt64 :=
  UInt64.ofNat (min d.millis 18446744073709551615)

def isZero (d : Duration) : Bool := d.nanos == 0

@[ext] theorem ext {a b : Duration} (h : a.nanos = b.nanos) : a = b := by
  cases a; cases b; cases h; rfl

theorem nanos_ofNanos {n : Nat} (h : n < limit) : (ofNanos n).nanos = n := by
  simp only [ofNanos]; omega

@[simp] theorem nanos_ofMillis (n : UInt64) : (ofMillis n).nanos = n.toNat * 1000000 := rfl

@[simp] theorem millis_ofMillis (n : UInt64) : (ofMillis n).millis = n.toNat := by
  simp [millis]

@[simp] theorem nanos_zero : zero.nanos = 0 := by simp [zero]

protected theorem add_zero (d : Duration) : d + zero = d := by
  have hsum : d.nanos + zero.nanos < limit := by
    rw [nanos_zero]
    exact d.nanos_lt
  exact ext ((nanos_ofNanos hsum).trans (by rw [nanos_zero, Nat.add_zero]))

theorem le_def {a b : Duration} : a ≤ b ↔ a.nanos ≤ b.nanos := Iff.rfl

end Duration

end StreamOperator
