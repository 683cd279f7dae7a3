import Mathlib.Algebra.Order.Round
import Mathlib.Data.Int.Log
import Mathlib.Tactic

/-!
# Rounding to a number of significant bits

The arithmetic of floating-point numbers with so many bits of significand, ties to even, where the
exponent is not bounded: an operation is exact, and its result is rounded. Whole numbers with no more
bits than that are their own rounding.
-/

namespace Rounding

variable {K : Type*} [Field K] [LinearOrder K] [FloorRing K]

/-- The nearest integer, of two the even one. -/
def nearestEven (x : K) : Int :=
  let k := ⌊x⌋
  if x - k < 1 / 2 then k else if 1 / 2 < x - k then k + 1 else k + k % 2

/-- The integer part, as a conversion to an integer type takes it. -/
def towardZero (x : K) : Int := if 0 ≤ x then ⌊x⌋ else ⌈x⌉

/-- The distance between neighbours among the numbers with this many bits that are as large as `x`. -/
def lastPlace (bits : Nat) (x : K) : K := 2 ^ (Int.log 2 |x| + 1 - bits)

def toBits (bits : Nat) (x : K) : K := nearestEven (x / lastPlace bits x) * lastPlace bits x

theorem lastPlace_ne_zero (bits : Nat) (x : K) : lastPlace bits x ≠ 0 :=
  zpow_ne_zero _ two_ne_zero

variable [IsStrictOrderedRing K]

@[simp] theorem nearestEven_intCast (n : Int) : nearestEven (n : K) = n := by
  simp [nearestEven]

@[simp] theorem towardZero_intCast (n : Int) : towardZero (n : K) = n := by
  simp [towardZero]

/-- A multiple of the last place is its own rounding. -/
theorem toBits_eq_self {bits : Nat} {x : K} {n : Int} (hx : x / lastPlace bits x = n) :
    toBits bits x = x := by
  rw [toBits, hx, nearestEven_intCast, ← hx, div_mul_cancel₀ x (lastPlace_ne_zero bits x)]

theorem log_lt_bits {bits : Nat} {n : Int} (hn : n ≠ 0) (h : |n| < 2 ^ bits) :
    Int.log 2 |(n : K)| < bits := by
  have hpos : 0 < |(n : K)| := abs_pos.mpr (Int.cast_ne_zero.mpr hn)
  apply (Int.lt_zpow_iff_log_lt one_lt_two hpos).mp
  rw [zpow_natCast, Nat.cast_ofNat]
  exact_mod_cast h

theorem toBits_intCast {bits : Nat} {n : Int} (h : |n| < 2 ^ bits) : toBits bits (n : K) = n := by
  rcases eq_or_ne n 0 with rfl | hn
  · simp [toBits, nearestEven]
  · have hlog := log_lt_bits (K := K) hn h
    -- The last place is a whole fraction of one.
    obtain ⟨d, hd⟩ : ∃ d : Nat, Int.log 2 |(n : K)| + 1 - bits = -(d : Int) :=
      ⟨(bits - 1 - Int.log 2 |(n : K)|).toNat, by omega⟩
    apply toBits_eq_self (n := n * 2 ^ d)
    rw [lastPlace, hd, zpow_neg, zpow_natCast, div_inv_eq_mul]
    push_cast
    rfl

end Rounding
