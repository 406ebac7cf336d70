import Mathlib.Algebra.Order.Ring.Abs
import OneBase.Lib.Binary32
import OneBase.Type.Value

/-!
# Floats as numbers and as texts

`CompareEquals` compares the numbers that two floats denote, `ToString` rounds the
number to two decimals.

- `compareFloats_eq`: finite floats are equal if they denote one number.
- `isHalfEven_hundredths`: the text has the nearest hundredth.
- `floatText_eq_iff`: two texts are the same if the signs and the hundredths are.
-/

namespace OneBase

open Cpp

namespace Value

/-! ## The number -/

theorem floatIsNaN_of_finite {bits : UInt32} (h : IsFinite bits) : floatIsNaN bits = false := by
  have hlt := bits.toNat_lt
  rw [IsFinite] at h
  rw [floatIsNaN, decide_eq_false_iff_not]
  omega

/-- **Finite floats are equal if they denote one number.** -/
theorem compareFloats_eq {a b : UInt32} (ha : IsFinite a) (hb : IsFinite b) :
    compareFloats (fun i j => i == j) a b = decide (binary32 a = binary32 b) := by
  have hkey : (floatKey a == floatKey b) = decide (binary32 a = binary32 b) := by
    rw [beq_eq_decide, decide_eq_decide]
    exact (binary32_inj a b).symm
  simp [compareFloats, floatIsNaN_of_finite ha, floatIsNaN_of_finite hb, hkey]

/-! ## The text -/

/-- The hundredths that the text has. -/
def hundredths (bits : UInt32) : Nat :=
  if bits.toNat / 2 ^ 23 % 256 = 0 then floatHundredths (bits.toNat % 2 ^ 23) 1
  else floatHundredths (2 ^ 23 + bits.toNat % 2 ^ 23) (bits.toNat / 2 ^ 23 % 256)

theorem floatHundredths_eq (m e : Nat) :
    floatHundredths m e = halfEven (m * 100 * 2 ^ e) (2 ^ 150) := rfl

/-- **The text has the nearest hundredth** to the magnitude of the number. -/
theorem isHalfEven_hundredths (bits : UInt32) :
    IsHalfEven (100 * |binary32 bits|) (hundredths bits) := by
  rw [abs_binary32, absBinary32, hundredths]
  split
  · rw [floatHundredths_eq]
    convert isHalfEven_halfEven _ (Nat.two_pow_pos 150) using 1
    push_cast
    ring
  · rw [floatHundredths_eq]
    convert isHalfEven_halfEven _ (Nat.two_pow_pos 150) using 1
    push_cast
    ring

/-- A number of hundredths with two decimals. -/
def fixedText (h : Nat) : List UInt8 :=
  decimal (h / 100) ++ 46 :: (decimal (h / 10 % 10) ++ decimal (h % 10))

/-- The minus sign, which `-0.00` has too. -/
def signText (bits : UInt32) : List UInt8 := if bits.toNat < 2 ^ 31 then [] else [45]

theorem floatText_eq {bits : UInt32} (h : IsFinite bits) :
    floatText bits = signText bits ++ fixedText (hundredths bits) := by
  rw [floatText]
  simp only
  rw [if_neg h, List.append_assoc]
  rfl

theorem not_mem_decimal {b : UInt8} (hb : b.toNat < 48) (n : Nat) : b ∉ decimal n := by
  intro h
  have hdigit := (mem_decimal h).1
  omega

theorem length_decimal_digit {d : Nat} (hd : d < 10) : (decimal d).length = 1 := by
  interval_cases d <;> rfl

/-- The point and the two digits behind it can be told apart. -/
theorem fixedText_injective {g h : Nat} (heq : fixedText g = fixedText h) : g = h := by
  have hpoint : ∀ n, (46 : UInt8) ∉ decimal n := not_mem_decimal (by decide)
  have hdigits : ∀ n m, (46 : UInt8) ∉ decimal n ++ decimal m := by
    intro n m hmem
    exact (List.mem_append.mp hmem).elim (hpoint n) (hpoint m)
  obtain ⟨hunits, -, hrest⟩ :=
    (List.append_cons_inj_of_notMem (hpoint _) (hdigits _ _)).mp heq
  have hlen : (decimal (g / 10 % 10)).length = (decimal (h / 10 % 10)).length := by
    rw [length_decimal_digit (Nat.mod_lt _ (by decide)),
      length_decimal_digit (Nat.mod_lt _ (by decide))]
  obtain ⟨htenths, hlast⟩ := List.append_inj hrest hlen
  have hu := decimal_injective hunits
  have ht := decimal_injective htenths
  have hl := decimal_injective hlast
  omega

/-- The texts of two finite floats. -/
theorem floatText_inj {x y : UInt32} (hx : IsFinite x) (hy : IsFinite y) :
    floatText x = floatText y ↔
      (x.toNat < 2 ^ 31 ↔ y.toNat < 2 ^ 31) ∧ hundredths x = hundredths y := by
  have hsign : ∀ h text, 45 :: text ≠ fixedText h := by
    intro h text heq
    have hmem : (45 : UInt8) ∈ fixedText h := heq ▸ List.mem_cons_self
    simp [fixedText, not_mem_decimal (b := 45) (by decide)] at hmem
  rw [floatText_eq hx, floatText_eq hy, signText, signText]
  constructor
  · intro heq
    split at heq
    · rename_i hxsign
      split at heq
      · rename_i hysign
        exact ⟨iff_of_true hxsign hysign, fixedText_injective heq⟩
      · exact absurd heq.symm (hsign _ _)
    · rename_i hxsign
      split at heq
      · exact absurd heq (hsign _ _)
      · rename_i hysign
        exact ⟨iff_of_false hxsign hysign, fixedText_injective (List.cons.inj heq).2⟩
  · rintro ⟨hsigns, hhundredths⟩
    simp only [hsigns, hhundredths]

/-- **Two texts are the same** if the numbers have one sign and round to one hundredth. -/
theorem floatText_eq_iff {x y : UInt32} (hx : IsFinite x) (hy : IsFinite y) :
    floatText x = floatText y ↔ (x.toNat < 2 ^ 31 ↔ y.toNat < 2 ^ 31) ∧
      ∃ i, IsHalfEven (100 * |binary32 x|) i ∧ IsHalfEven (100 * |binary32 y|) i := by
  rw [floatText_inj hx hy]
  refine and_congr_right fun _ => ?_
  constructor
  · intro h
    exact ⟨_, isHalfEven_hundredths x, h ▸ isHalfEven_hundredths y⟩
  · rintro ⟨i, hxi, hyi⟩
    have hxeq := (isHalfEven_hundredths x).unique hxi
    have hyeq := (isHalfEven_hundredths y).unique hyi
    omega

end Value

end OneBase
