import Mathlib.Data.List.TakeWhile
import Mathlib.Data.Nat.Digits.Lemmas
import OneBase.Lib.Bytes

/-!
# Decimal text (`std::to_string`, `std::stoi`)

The text of a number is a list of ASCII bytes.

- `decimal_injective`, `decimalInt_injective`: different numbers have different texts.
- `mem_decimal`: the text of a natural number has digits only.
- `stoi_decimalInt`: the text of a number is read back.
-/

namespace Cpp

/-- The decimal digits of a natural number. -/
def decimal (n : Nat) : List UInt8 :=
  if n = 0 then [48] else ((Nat.digits 10 n).map fun d => UInt8.ofNat (48 + d)).reverse

/-- The text of an integer, with a minus sign if it is negative. -/
def decimalInt (i : Int) : List UInt8 :=
  if i < 0 then 45 :: decimal i.natAbs else decimal i.natAbs

theorem toNat_digit {d : Nat} (hd : d < 10) : (UInt8.ofNat (48 + d)).toNat = 48 + d := by
  rw [UInt8.toNat_ofNat']
  omega

/-- The bytes of a text are digits. -/
theorem mem_decimal {n : Nat} {b : UInt8} (hb : b ∈ decimal n) : 48 ≤ b.toNat ∧ b.toNat < 58 := by
  rw [decimal] at hb
  split at hb
  · obtain rfl := List.mem_singleton.mp hb
    exact ⟨by decide, by decide⟩
  · rw [List.mem_reverse, List.mem_map] at hb
    obtain ⟨d, hd, rfl⟩ := hb
    have hlt := Nat.digits_lt_base (by decide : 1 < 10) hd
    rw [toNat_digit hlt]
    omega

/-- The number that a text of digits stands for. -/
def ofDecimal (text : List UInt8) : Nat := Nat.ofDigits 10 (text.reverse.map fun b => b.toNat - 48)

theorem ofDecimal_decimal (n : Nat) : ofDecimal (decimal n) = n := by
  rw [decimal]
  split
  · rename_i hzero
    subst hzero
    rfl
  · rw [ofDecimal, List.reverse_reverse, List.map_map]
    have hdigits : (Nat.digits 10 n).map ((fun b : UInt8 => b.toNat - 48) ∘
        fun d => UInt8.ofNat (48 + d)) = Nat.digits 10 n := by
      refine (List.map_congr_left fun d hd => ?_).trans (List.map_id _)
      show (UInt8.ofNat (48 + d)).toNat - 48 = d
      rw [toNat_digit (Nat.digits_lt_base (by decide : 1 < 10) hd)]
      omega
    rw [hdigits, Nat.ofDigits_digits]

/-- **Different numbers have different texts.** -/
theorem decimal_injective {m n : Nat} (h : decimal m = decimal n) : m = n := by
  rw [← ofDecimal_decimal m, h, ofDecimal_decimal]

/-- The texts of integers; a minus sign is no digit. -/
theorem decimalInt_injective {i j : Int} (h : decimalInt i = decimalInt j) : i = j := by
  have hsign : ∀ n text, 45 :: text ≠ decimal n := by
    intro n text heq
    have hmem : (45 : UInt8) ∈ decimal n := heq ▸ List.mem_cons_self
    exact absurd (mem_decimal hmem).1 (by decide)
  rw [decimalInt, decimalInt] at h
  split at h <;> split at h
  · have := decimal_injective (List.cons.inj h).2
    omega
  · exact absurd h (hsign _ _)
  · exact absurd h.symm (hsign _ _)
  · have := decimal_injective h
    omega

/-! ## Reading a number -/

/-- Whether a byte is white space (`isspace`). -/
def isSpace (b : UInt8) : Bool := b.toNat == 32 || (9 ≤ b.toNat && b.toNat ≤ 13)

/-- Whether a byte is a digit (`isdigit`). -/
def isDigit (b : UInt8) : Bool := 48 ≤ b.toNat && b.toNat < 58

/-- The number that a text of digits begins with; no digits are no number. -/
def leadingDigits (text : List UInt8) : Option Nat :=
  if text.takeWhile isDigit = [] then none else some (ofDecimal (text.takeWhile isDigit))

/-- The number that follows an optional sign. -/
def signedDigits : List UInt8 → Option Int
  | [] => none
  | b :: text =>
    if b = 45 then (leadingDigits text).map fun n => -Int.ofNat n
    else if b = 43 then (leadingDigits text).map Int.ofNat
    else (leadingDigits (b :: text)).map Int.ofNat

/-- `std::stoi`: the number after leading white space, whatever follows it. `none` is
an exception: there is no number, or it is no `int`. -/
def stoi (text : List UInt8) : Option Int :=
  (signedDigits (text.dropWhile isSpace)).filter fun i => IsInt32 i

theorem decimal_ne_nil (n : Nat) : decimal n ≠ [] := by
  rw [decimal]
  split
  · exact List.cons_ne_nil _ _
  · rename_i hzero
    simpa [Nat.digits_eq_nil_iff_eq_zero] using hzero

theorem isDigit_of_mem_decimal {n : Nat} {b : UInt8} (hb : b ∈ decimal n) : isDigit b = true := by
  simpa [isDigit] using mem_decimal hb

/-- The digits of a number are read back. -/
theorem leadingDigits_decimal (n : Nat) : leadingDigits (decimal n) = some n := by
  have htake : (decimal n).takeWhile isDigit = decimal n :=
    List.takeWhile_eq_self_iff.mpr fun b hb => isDigit_of_mem_decimal hb
  rw [leadingDigits, htake, if_neg (decimal_ne_nil n), ofDecimal_decimal]

/-- A text of digits has no sign. -/
theorem signedDigits_decimal (n : Nat) : signedDigits (decimal n) = some (n : Int) := by
  have hdigits := leadingDigits_decimal n
  cases htext : decimal n with
  | nil => exact absurd htext (decimal_ne_nil n)
  | cons b text =>
    have hb : 48 ≤ b.toNat := (mem_decimal (htext ▸ List.mem_cons_self)).1
    have hminus : b ≠ 45 := by rintro rfl; exact absurd hb (by decide)
    have hplus : b ≠ 43 := by rintro rfl; exact absurd hb (by decide)
    rw [htext] at hdigits
    rw [signedDigits, if_neg hminus, if_neg hplus, hdigits]
    rfl

/-- A number does not begin with white space. -/
theorem dropWhile_decimalInt (i : Int) : (decimalInt i).dropWhile isSpace = decimalInt i := by
  rw [decimalInt]
  split
  · rfl
  · cases htext : decimal i.natAbs with
    | nil => rfl
    | cons b text =>
      have hb : 48 ≤ b.toNat := (mem_decimal (htext ▸ List.mem_cons_self)).1
      refine List.dropWhile_cons_of_neg ?_
      simp only [isSpace, Bool.or_eq_true, Bool.and_eq_true, beq_iff_eq, decide_eq_true_eq]
      omega

/-- **The text of an `int` is read back.** -/
theorem stoi_decimalInt {i : Int} (hi : IsInt32 i) : stoi (decimalInt i) = some i := by
  have hsigned : signedDigits (decimalInt i) = some i := by
    rw [decimalInt]
    split
    · rw [signedDigits, if_pos rfl, leadingDigits_decimal, Option.map_some]
      congr 1
      rw [Int.ofNat_eq_natCast]
      omega
    · rw [signedDigits_decimal]
      congr 1
      omega
  rw [stoi, dropWhile_decimalInt, hsigned, Option.filter_some, if_pos (by simpa using hi)]

end Cpp
