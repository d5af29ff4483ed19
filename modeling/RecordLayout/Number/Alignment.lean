/-!
# Rounding to an alignment

## Main definitions

* `Number.roundUp` and `Number.roundDown` move a position to a multiple of an alignment; an
  alignment of one or less leaves it where it is;
* `Number.isPowerOfTwo` says which integers are alignments.

## Main results

* `roundUp_of_le_one`, `le_roundUp`: where `roundUp` lies;
* `dvd_roundUp`: it is a multiple of the alignment.
-/

namespace RecordLayout.Number

/-- The least multiple of `alignment` that is at least `value`. -/
def roundUp (value alignment : Int) : Int :=
  if alignment ≤ 1 then value else (value + alignment - 1) / alignment * alignment

/-- The greatest multiple of `alignment` that is at most `value`. -/
def roundDown (value alignment : Int) : Int :=
  if alignment ≤ 1 then value else value / alignment * alignment

/-- A power of two is positive and has a single bit. -/
def isPowerOfTwo (n : Int) : Bool := 0 < n && n.toNat == Nat.pow 2 n.toNat.log2

@[simp] theorem roundUp_of_le_one (value : Int) {alignment : Int} (h : alignment ≤ 1) :
    roundUp value alignment = value := by
  simp [roundUp, h]

theorem le_roundUp (value alignment : Int) : value ≤ roundUp value alignment := by
  unfold roundUp
  split
  · exact Int.le_refl _
  · rename_i h
    have hp : 0 < alignment := by omega
    have h₁ := Int.emod_add_mul_ediv (value + alignment - 1) alignment
    have h₂ := Int.emod_lt_of_pos (value + alignment - 1) hp
    rw [Int.mul_comm] at h₁
    omega

theorem dvd_roundUp {alignment : Int} (value : Int) (h : 0 < alignment) :
    alignment ∣ roundUp value alignment := by
  unfold roundUp
  split
  · have : alignment = 1 := by omega
    subst this; exact Int.one_dvd _
  · exact Int.dvd_mul_left _ _

end RecordLayout.Number
