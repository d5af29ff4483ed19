import Mathlib.Data.List.Basic
import RecordLayout.Text.Numeral

/-!
# Numerals that are written and read back

The numeral of an integer consists of ASCII digits, behind a minus if the integer is negative.
Reading it gives the integer back.

## Main results

* `Text.digitsFrom?_eq`: ASCII digits are read as the number that they write;
* `Text.integer?_toString`: the numeral of an integer is read as that integer.
-/

namespace RecordLayout.Text

variable {c : Char} {cs : List Char}

/-! ## ASCII digits -/

theorem toNat_of_isDigit (h : c.isDigit = true) : 48 ≤ c.toNat ∧ c.toNat ≤ 57 := by
  simpa [Char.isDigit, UInt32.le_iff_toNat_le] using h

/-- The ASCII digits are the first script that is looked at. -/
theorem digitValue?_of_isDigit (h : c.isDigit = true) :
    digitValue? c = some (c.toNat - '0'.toNat) := by
  have hrange := toNat_of_isDigit h
  obtain ⟨zeros, hzeros⟩ : ∃ zeros, digitZeros = (0x30 :: zeros).toArray :=
    ⟨digitZeros.toList.tail, rfl⟩
  have hfirst : (0x30 :: zeros).find? (fun z => z ≤ c.toNat && c.toNat < z + 10) = some 0x30 := by
    refine List.find?_cons_of_pos ?_
    simp only [Bool.and_eq_true, decide_eq_true_eq]
    omega
  rw [digitValue?, hzeros, List.find?_toArray, hfirst]
  rfl

theorem isNumeralBlank_of_isDigit (h : c.isDigit = true) : isNumeralBlank c = false := by
  have hrange := toNat_of_isDigit h
  simp only [isNumeralBlank, Bool.or_eq_false_iff, Bool.and_eq_false_iff, decide_eq_false_iff_not,
    beq_eq_false_iff_ne]
  omega

/-! ## Reading -/

theorem digitsFrom?_eq (h : ∀ c ∈ cs, c.isDigit = true) (value : Nat) :
    digitsFrom? value cs = some (Nat.ofDigitChars 10 cs value) := by
  induction cs generalizing value with
  | nil => rfl
  | cons c cs ih =>
    rw [List.forall_mem_cons] at h
    have hbar : c ≠ '_' := by
      rintro rfl
      exact absurd h.1 (by decide)
    rw [digitsFrom?, digitValue?_of_isDigit h.1, Option.bind_some, ih h.2, Nat.mul_comm]
    · rfl
    · exact fun _ _ heq => absurd heq hbar

theorem natural?_eq (hne : cs ≠ []) (h : ∀ c ∈ cs, c.isDigit = true) :
    natural? cs = some (Nat.ofDigitChars 10 cs 0) := by
  cases cs with
  | nil => exact absurd rfl hne
  | cons c cs =>
    rw [List.forall_mem_cons] at h
    rw [natural?, digitValue?_of_isDigit h.1, Option.bind_some, digitsFrom?_eq h.2,
      Nat.ofDigitChars_cons, Nat.mul_zero, Nat.zero_add]

theorem isDigit_of_mem_toDigits {n : Nat} (h : c ∈ Nat.toDigits 10 n) : c.isDigit = true :=
  Nat.isDigit_of_mem_toDigits (by decide) (by decide) h

theorem natural?_toDigits (n : Nat) : natural? (Nat.toDigits 10 n) = some n := by
  rw [natural?_eq Nat.toDigits_ne_nil fun _ => isDigit_of_mem_toDigits,
    Nat.ofDigitChars_toDigits (by decide) (by decide)]

/-- What holds no blanks has none to lose at its ends. -/
theorem trim_eq (h : ∀ c ∈ cs, isNumeralBlank c = false) :
    ((cs.dropWhile isNumeralBlank).reverse.dropWhile isNumeralBlank).reverse = cs := by
  have hdrop : ∀ ds : List Char, (∀ c ∈ ds, isNumeralBlank c = false) →
      ds.dropWhile isNumeralBlank = ds := by
    intro ds hds
    cases ds with
    | nil => rfl
    | cons d ds => exact List.dropWhile_cons_of_neg (by simp [hds d List.mem_cons_self])
  rw [hdrop cs h, hdrop cs.reverse fun c hc => h c (List.mem_reverse.mp hc), List.reverse_reverse]

theorem integer?_natRepr (n : Nat) : integer? n.repr = some (n : Int) := by
  have hblank : ∀ c ∈ Nat.toDigits 10 n, isNumeralBlank c = false := fun c hc =>
    isNumeralBlank_of_isDigit (isDigit_of_mem_toDigits hc)
  rw [integer?, Nat.toList_repr, trim_eq hblank]
  split
  · rename_i hminus
    exact absurd (isDigit_of_mem_toDigits (hminus ▸ List.mem_cons_self)) (by decide)
  · rename_i hplus
    exact absurd (isDigit_of_mem_toDigits (hplus ▸ List.mem_cons_self)) (by decide)
  · rw [natural?_toDigits]
    rfl

theorem integer?_minus_natRepr (n : Nat) : integer? ("-" ++ n.repr) = some (-(n : Int)) := by
  have hblank : ∀ c ∈ '-' :: Nat.toDigits 10 n, isNumeralBlank c = false :=
    List.forall_mem_cons.mpr ⟨rfl, fun c hc =>
      isNumeralBlank_of_isDigit (isDigit_of_mem_toDigits hc)⟩
  have hchars : ("-" ++ n.repr).toList = '-' :: Nat.toDigits 10 n := by
    rw [String.toList_append, Nat.toList_repr]
    rfl
  simp only [integer?, hchars, trim_eq hblank, natural?_toDigits]
  rfl

/-- **The numeral of an integer is read as that integer.** -/
theorem integer?_toString (n : Int) : integer? (toString n) = some n := by
  rw [Int.toString_eq_repr]
  cases n with
  | ofNat m => exact integer?_natRepr m
  | negSucc m => exact integer?_minus_natRepr (m + 1)

end RecordLayout.Text
