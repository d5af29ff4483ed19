import Mathlib.Algebra.Ring.Int.Defs
import RecordLayout.Number.Alignment

/-!
# Rounding as a closure operator

Rounding up is monotone in the position, and for alignments that divide one another also in the
alignment.  Powers of two are such alignments: of two of them the smaller divides the greater, which
is why a cap on alignments never moves anything outwards.

## Main results

* `roundUp_le_of_dvd`: a rounded position is the least multiple that is reached;
* `roundUp_le_roundUp`: rounding is monotone in both arguments;
* `isPowerOfTwo_iff`: what the test for an alignment says;
* `dvd_of_le`: of two powers of two the smaller divides the greater.
-/

namespace RecordLayout.Number

@[simp] theorem roundUp_zero (alignment : Int) : roundUp 0 alignment = 0 := by
  unfold roundUp
  split
  · rfl
  · rename_i h
    rw [Int.zero_add, Int.ediv_eq_zero_of_lt (by omega) (by omega), Int.zero_mul]

/-- **A rounded position is least** among the multiples of the alignment from the position on. -/
theorem roundUp_le_of_dvd {value multiple alignment : Int} (h : value ≤ multiple)
    (hd : alignment ∣ multiple) : roundUp value alignment ≤ multiple := by
  unfold roundUp
  split
  · exact h
  · rename_i ha
    obtain ⟨k, rfl⟩ := hd
    have hp : 0 < alignment := by omega
    have hk : (value + alignment - 1) / alignment < k + 1 := by
      rw [Int.ediv_lt_iff_lt_mul hp, Int.add_mul, Int.mul_comm k]
      omega
    rw [Int.mul_comm]
    exact Int.mul_le_mul_of_nonneg_left (by omega) (by omega)

theorem roundUp_eq_of_dvd {value alignment : Int} (h : alignment ∣ value) :
    roundUp value alignment = value :=
  Int.le_antisymm (roundUp_le_of_dvd (Int.le_refl value) h) (le_roundUp _ _)

theorem roundUp_mono {v w : Int} (h : v ≤ w) (alignment : Int) :
    roundUp v alignment ≤ roundUp w alignment := by
  unfold roundUp
  split
  · exact h
  · rename_i ha
    have hquotient := Int.ediv_le_ediv (by omega : 0 < alignment)
      (by omega : v + alignment - 1 ≤ w + alignment - 1)
    exact Int.mul_le_mul_of_nonneg_right hquotient (by omega)

/-- Rounding to a divisor of the alignment stays below rounding to the alignment. -/
theorem roundUp_le_roundUp {v w a b : Int} (h : v ≤ w) (hd : a ∣ b) (hb : 0 < b) :
    roundUp v a ≤ roundUp w b :=
  roundUp_le_of_dvd (Int.le_trans h (le_roundUp w b)) (Int.dvd_trans hd (dvd_roundUp w hb))

/-! ## Powers of two -/

theorem isPowerOfTwo_iff {n : Int} : isPowerOfTwo n = true ↔ ∃ k : Nat, n = 2 ^ k := by
  simp only [isPowerOfTwo, Bool.and_eq_true, decide_eq_true_eq, beq_iff_eq]
  constructor
  · rintro ⟨hpos, hn⟩
    refine ⟨n.toNat.log2, ?_⟩
    calc n = (n.toNat : Int) := (Int.toNat_of_nonneg (by omega)).symm
      _ = ((2 ^ n.toNat.log2 : Nat) : Int) := congrArg _ hn
      _ = 2 ^ n.toNat.log2 := Int.natCast_pow ..
  · rintro ⟨k, rfl⟩
    rw [show (2 : Int) ^ k = ((2 ^ k : Nat) : Int) from (Int.natCast_pow ..).symm,
      Int.toNat_natCast, Nat.log2_two_pow]
    exact ⟨Int.natCast_pos.mpr (Nat.two_pow_pos k), rfl⟩

theorem pos_of_isPowerOfTwo {n : Int} (h : isPowerOfTwo n = true) : 0 < n := by
  obtain ⟨k, rfl⟩ := isPowerOfTwo_iff.mp h
  exact @Int.pow_pos 2 k (by decide)

/-- **Of two powers of two the smaller divides the greater.** -/
theorem dvd_of_le {m n : Int} (hm : isPowerOfTwo m = true) (hn : isPowerOfTwo n = true)
    (h : m ≤ n) : m ∣ n := by
  obtain ⟨i, rfl⟩ := isPowerOfTwo_iff.mp hm
  obtain ⟨j, rfl⟩ := isPowerOfTwo_iff.mp hn
  have hij : i ≤ j :=
    Nat.le_of_not_lt fun hlt => Int.not_lt.mpr h (Int.pow_lt_pow_of_lt (by decide) hlt)
  obtain ⟨k, rfl⟩ := Nat.exists_eq_add_of_le hij
  exact ⟨2 ^ k, Int.pow_add 2 i k⟩

theorem isPowerOfTwo_max {m n : Int} (hm : isPowerOfTwo m = true) (hn : isPowerOfTwo n = true) :
    isPowerOfTwo (max m n) = true := by
  rcases Int.le_total m n with h | h
  · rwa [Int.max_eq_right h]
  · rwa [Int.max_eq_left h]

theorem isPowerOfTwo_min {m n : Int} (hm : isPowerOfTwo m = true) (hn : isPowerOfTwo n = true) :
    isPowerOfTwo (min m n) = true := by
  rcases Int.le_total m n with h | h
  · rwa [Int.min_eq_left h]
  · rwa [Int.min_eq_right h]

/-! ## Whole bytes

A bit position is rounded up to a byte by `roundUp · 8 / 8`. -/

theorem le_byteCeil (bit : Int) : bit ≤ roundUp bit 8 / 8 * 8 := by
  simp only [roundUp]
  omega

theorem byteCeil_le {bit byte : Int} (h : bit ≤ byte * 8) : roundUp bit 8 / 8 ≤ byte := by
  simp only [roundUp]
  omega

theorem byteCeil_mono {v w : Int} (h : v ≤ w) : roundUp v 8 / 8 ≤ roundUp w 8 / 8 := by
  simp only [roundUp]
  omega

@[simp] theorem byteCeil_mul (byte : Int) : roundUp (byte * 8) 8 / 8 = byte := by
  simp only [roundUp]
  omega

end RecordLayout.Number
