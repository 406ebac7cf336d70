import Mathlib.Algebra.Order.Field.Rat
import Mathlib.Algebra.Order.Ring.Abs
import Mathlib.Data.Int.ConditionallyCompleteOrder
import Mathlib.Order.Interval.Set.OrdConnected
import Mathlib.Order.SuccPred.Archimedean
import Mathlib.Tactic.FieldSimp
import Mathlib.Tactic.Linarith
import Mathlib.Tactic.NormNum
import Mathlib.Tactic.Positivity
import Mathlib.Tactic.Ring

/-!
# Floats as rationals

A float of 32 bits that is finite is a rational number. Its magnitude is a multiple of
`2 ^ (-149)`, and grows with the bits.

- `magnitude_strictMono`: the magnitudes are in the order of the bits.
- `binary32_lt_iff`, `binary32_inj`: the floats are in the order of the signed bits.
- `isHalfEven_halfEven`: rounding to the nearest integer, a tie to the even one.
-/

namespace Cpp

/-! ## The order of the bits -/

/-- The magnitude of 31 bits, in halves of the smallest one. -/
def magnitude (n : Nat) : Nat :=
  if n / 2 ^ 23 = 0 then n % 2 ^ 23 * 2 else (2 ^ 23 + n % 2 ^ 23) * 2 ^ (n / 2 ^ 23)

theorem magnitude_zero : magnitude 0 = 0 := rfl

/-- The next number is larger: it has a larger fraction, or the least one and the next
exponent. -/
theorem magnitude_lt_succ (n : Nat) : magnitude n < magnitude (n + 1) := by
  by_cases hcarry : n % 2 ^ 23 = 2 ^ 23 - 1
  · have hdiv : (n + 1) / 2 ^ 23 = n / 2 ^ 23 + 1 := by omega
    have hmod : (n + 1) % 2 ^ 23 = 0 := by omega
    have hne : (n + 1) / 2 ^ 23 ≠ 0 := by omega
    rw [magnitude, magnitude, if_neg hne, hmod, hdiv, hcarry]
    by_cases hzero : n / 2 ^ 23 = 0
    · rw [if_pos hzero, hzero]
      norm_num
    · have hpow : (2 ^ 23 + 0) * 2 ^ (n / 2 ^ 23 + 1) = 2 ^ 24 * 2 ^ (n / 2 ^ 23) := by ring
      rw [if_neg hzero, hpow]
      exact Nat.mul_lt_mul_of_pos_right (by omega) (Nat.two_pow_pos _)
  · have hdiv : (n + 1) / 2 ^ 23 = n / 2 ^ 23 := by omega
    have hmod : (n + 1) % 2 ^ 23 = n % 2 ^ 23 + 1 := by omega
    rw [magnitude, magnitude, hdiv, hmod]
    by_cases hzero : n / 2 ^ 23 = 0
    · rw [if_pos hzero, if_pos hzero]
      omega
    · rw [if_neg hzero, if_neg hzero]
      exact Nat.mul_lt_mul_of_pos_right (by omega) (Nat.two_pow_pos _)

theorem magnitude_strictMono : StrictMono magnitude := strictMono_nat_of_lt_succ magnitude_lt_succ

/-- The bits with their sign as an integer. -/
def signedBits (bits : UInt32) : Int :=
  if bits.toNat < 2 ^ 31 then bits.toNat else -(bits.toNat % 2 ^ 31 : Nat)

/-- The magnitude with a sign. -/
def signedMagnitude (i : Int) : Int :=
  if 0 ≤ i then magnitude i.toNat else -(magnitude (-i).toNat : Int)

theorem signedMagnitude_strictMono : StrictMono signedMagnitude := by
  intro i j hij
  rw [signedMagnitude, signedMagnitude]
  by_cases hi : 0 ≤ i
  · have hj : 0 ≤ j := by omega
    rw [if_pos hi, if_pos hj]
    have hlt := magnitude_strictMono (show i.toNat < j.toNat by omega)
    omega
  · rw [if_neg hi]
    have hpos := magnitude_strictMono (show 0 < (-i).toNat by omega)
    rw [magnitude_zero] at hpos
    by_cases hj : 0 ≤ j
    · rw [if_pos hj]
      omega
    · rw [if_neg hj]
      have hlt := magnitude_strictMono (show (-j).toNat < (-i).toNat by omega)
      omega

/-! ## The rational of a float -/

/-- The exponent of infinities and NaNs is not that of a number. -/
def IsFinite (bits : UInt32) : Prop := bits.toNat / 2 ^ 23 % 256 ≠ 255

instance (bits : UInt32) : Decidable (IsFinite bits) := inferInstanceAs (Decidable (_ ≠ _))

/-- The magnitude of the number: `(2 ^ 23 + frac) * 2 ^ (expo - 150)`, or
`frac * 2 ^ (-149)` if the exponent is 0. -/
def absBinary32 (bits : UInt32) : Rat :=
  let expo : Nat := bits.toNat / 2 ^ 23 % 256
  let frac : Nat := bits.toNat % 2 ^ 23
  if expo = 0 then frac * 2 / 2 ^ 150 else (2 ^ 23 + frac) * 2 ^ expo / 2 ^ 150

/-- The number that a finite float denotes. -/
def binary32 (bits : UInt32) : Rat :=
  if bits.toNat < 2 ^ 31 then absBinary32 bits else -absBinary32 bits

theorem absBinary32_eq (bits : UInt32) :
    absBinary32 bits = (magnitude (bits.toNat % 2 ^ 31) : Rat) / 2 ^ 150 := by
  have hlt := bits.toNat_lt
  have hexpo : bits.toNat % 2 ^ 31 / 2 ^ 23 = bits.toNat / 2 ^ 23 % 256 := by omega
  have hfrac : bits.toNat % 2 ^ 31 % 2 ^ 23 = bits.toNat % 2 ^ 23 := by omega
  rw [absBinary32, magnitude, hexpo, hfrac]
  split
  · push_cast
    rfl
  · push_cast
    rfl

theorem abs_binary32 (bits : UInt32) : |binary32 bits| = absBinary32 bits := by
  have hnonneg : 0 ≤ absBinary32 bits := by
    rw [absBinary32_eq]
    positivity
  rw [binary32]
  split
  · exact abs_of_nonneg hnonneg
  · exact (abs_neg _).trans (abs_of_nonneg hnonneg)

/-- The number is the signed magnitude of the signed bits. -/
theorem binary32_eq (bits : UInt32) :
    binary32 bits = (signedMagnitude (signedBits bits) : Rat) / 2 ^ 150 := by
  rw [binary32, absBinary32_eq, signedBits]
  by_cases hsign : bits.toNat < 2 ^ 31
  · have hmod : bits.toNat % 2 ^ 31 = bits.toNat := Nat.mod_eq_of_lt hsign
    rw [if_pos hsign, if_pos hsign, signedMagnitude, if_pos (by omega), Int.toNat_natCast, hmod]
    push_cast
    rfl
  · rw [if_neg hsign, if_neg hsign, signedMagnitude]
    by_cases hzero : bits.toNat % 2 ^ 31 = 0
    · rw [hzero]
      simp [magnitude_zero]
    · rw [if_neg (by omega), neg_neg, Int.toNat_natCast]
      push_cast
      rw [neg_div]

/-- **The numbers are in the order of the signed bits.** -/
theorem binary32_lt_iff (a b : UInt32) : binary32 a < binary32 b ↔ signedBits a < signedBits b := by
  rw [binary32_eq, binary32_eq, div_lt_div_iff_of_pos_right (by positivity), Int.cast_lt]
  exact signedMagnitude_strictMono.lt_iff_lt

/-- Two floats are one number if the signed bits are the same. -/
theorem binary32_inj (a b : UInt32) : binary32 a = binary32 b ↔ signedBits a = signedBits b := by
  constructor
  · intro h
    have hab := mt (binary32_lt_iff a b).mpr (by simp [h])
    have hba := mt (binary32_lt_iff b a).mpr (by simp [h])
    omega
  · intro h
    rw [binary32_eq, binary32_eq, h]

/-! ## Rounding -/

/-- The integer is the nearest one, and even if another one is as near. -/
def IsHalfEven (q : Rat) (i : Int) : Prop := |q - i| < 1 / 2 ∨ |q - i| = 1 / 2 ∧ Even i

/-- There is one such integer. -/
theorem IsHalfEven.unique {q : Rat} {i j : Int} (hi : IsHalfEven q i) (hj : IsHalfEven q j) :
    i = j := by
  have hle {k : Int} (h : IsHalfEven q k) : |q - k| ≤ 1 / 2 := h.elim le_of_lt fun h => h.1.le
  obtain ⟨hi₁, hi₂⟩ := abs_le.mp (hle hi)
  obtain ⟨hj₁, hj₂⟩ := abs_le.mp (hle hj)
  by_contra hne
  -- two such integers are neighbours, both of them even
  have heven {k l : Int} (hk : IsHalfEven q k) (hkl : k = l + 1 ∨ l = k + 1)
      (hl : |q - l| ≤ 1 / 2) : Even k := by
    rcases hk with hlt | ⟨-, h⟩
    · obtain ⟨h₁, h₂⟩ := abs_lt.mp hlt
      obtain ⟨h₃, h₄⟩ := abs_le.mp hl
      rcases hkl with rfl | rfl
      · push_cast at h₁ h₂
        linarith
      · push_cast at h₃ h₄
        linarith
    · exact h
  have hij : (i : Rat) ≤ j + 1 := by linarith
  have hji : (j : Rat) ≤ i + 1 := by linarith
  have hij' : i ≤ j + 1 := by exact_mod_cast hij
  have hji' : j ≤ i + 1 := by exact_mod_cast hji
  have hnext : i = j + 1 ∨ j = i + 1 := by omega
  obtain ⟨a, ha⟩ := heven hi hnext (hle hj)
  obtain ⟨b, hb⟩ := heven hj hnext.symm (hle hi)
  omega

/-- The rounded quotient. -/
def halfEven (num den : Nat) : Nat :=
  let q := num / den
  let r := num % den
  if 2 * r < den ∨ 2 * r = den ∧ q % 2 = 0 then q else q + 1

theorem isHalfEven_halfEven (num : Nat) {den : Nat} (hden : 0 < den) :
    IsHalfEven ((num : Rat) / den) (halfEven num den) := by
  have hpos : (0 : Rat) < den := by exact_mod_cast hden
  have hdiv : (num : Rat) / den = (num / den : Nat) + ((num % den : Nat) : Rat) / den := by
    have hsum : (den : Rat) * (num / den : Nat) + (num % den : Nat) = num := by
      exact_mod_cast Nat.div_add_mod num den
    rw [eq_comm, ← hsum]
    field_simp
  -- the remainder, and how it compares with the half of the divisor
  obtain ⟨ε, hε⟩ : ∃ ε, ε = ((num % den : Nat) : Rat) / den := ⟨_, rfl⟩
  have hmul : 2 * ε * den = ((2 * (num % den) : Nat) : Rat) := by
    rw [hε]
    push_cast
    field_simp
  have hlt : 2 * (num % den) < den ↔ ε < 1 / 2 := by
    rw [← Nat.cast_lt (α := Rat), ← hmul, mul_lt_iff_lt_one_left hpos]
    constructor <;> intro h <;> linarith
  have heq : 2 * (num % den) = den ↔ ε = 1 / 2 := by
    rw [← Nat.cast_inj (R := Rat), ← hmul, mul_eq_right₀ hpos.ne']
    constructor <;> intro h <;> linarith
  have hnonneg : 0 ≤ ε := by
    rw [hε]
    exact div_nonneg (Nat.cast_nonneg _) hpos.le
  have hle : ε ≤ 1 := by
    rw [hε, div_le_one₀ hpos]
    exact_mod_cast (Nat.mod_lt num hden).le
  rw [halfEven, IsHalfEven, hdiv, ← hε]
  simp only [hlt, heq]
  split
  · rename_i h
    have habs : |((num / den : Nat) : Rat) + ε - ((num / den : Nat) : Int)| = ε := by
      rw [Int.cast_natCast, add_sub_cancel_left, abs_of_nonneg hnonneg]
    rw [habs]
    refine h.imp_right fun h => ⟨h.1, ?_⟩
    exact_mod_cast Nat.even_iff.mpr h.2
  · rename_i h
    rw [not_or, not_and, not_lt] at h
    have habs : |((num / den : Nat) : Rat) + ε - ((num / den + 1 : Nat) : Int)| = 1 - ε := by
      rw [Int.cast_natCast, Nat.cast_add, Nat.cast_one, abs_of_nonpos (by linarith)]
      ring
    rw [habs]
    rcases h.1.lt_or_eq with hgt | htie
    · left
      linarith
    · right
      have hodd := h.2 htie.symm
      have heven : Even (num / den + 1) := Nat.even_iff.mpr (by omega)
      refine ⟨by linarith, ?_⟩
      exact_mod_cast heven

end Cpp
