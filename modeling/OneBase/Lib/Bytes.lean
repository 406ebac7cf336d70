import Mathlib.Algebra.Group.Int.Defs
import Mathlib.Algebra.Group.Nat.Defs
import Mathlib.Data.List.Basic

/-!
# Byte memory

A block of memory is a function from offsets to bytes. `slice` and `blit` are the
two directions of `memcpy`; integers are read and written in little-endian order
(`readLE`, `writeLE`), the byte order of the machines the code runs on.

- `slice_blit_self`, `slice_blit_disjoint`: a copy is read back, and nothing else
  changes.
- `readLE_writeLE_self`: an integer is read back, modulo its width.
- `readInt32_writeInt32_self`: a signed 32-bit integer is read back.
-/

namespace Cpp

/-- A block of memory. -/
abbrev Mem := Nat → UInt8

/-- The `len` bytes from `off` on. -/
def slice (m : Mem) (off len : Nat) : List UInt8 := (List.range len).map fun i => m (off + i)

/-- The memory after the bytes `bs` were copied to `off`. -/
def blit (m : Mem) (off : Nat) (bs : List UInt8) : Mem :=
  fun i => if off ≤ i ∧ i < off + bs.length then bs.getD (i - off) 0 else m i

@[simp] theorem length_slice (m : Mem) (off len : Nat) : (slice m off len).length = len := by
  simp [slice]

@[simp] theorem slice_zero (m : Mem) (off : Nat) : slice m off 0 = [] := rfl

theorem slice_congr {m m' : Mem} {off len : Nat}
    (h : ∀ i, off ≤ i → i < off + len → m i = m' i) : slice m off len = slice m' off len := by
  refine List.map_congr_left fun i hi => h _ (Nat.le_add_right _ _) ?_
  have := List.mem_range.mp hi
  omega

@[simp] theorem slice_blit_self (m : Mem) (off : Nat) (bs : List UInt8) :
    slice (blit m off bs) off bs.length = bs := by
  refine List.ext_getElem (by simp) fun i h₁ h₂ => ?_
  simp [slice, blit, h₂]

theorem blit_of_disjoint {m : Mem} {off i : Nat} {bs : List UInt8}
    (h : i < off ∨ off + bs.length ≤ i) : blit m off bs i = m i := by
  simp only [blit]
  rw [if_neg]
  omega

theorem slice_blit_disjoint (m : Mem) {off len o : Nat} {bs : List UInt8}
    (h : off + len ≤ o ∨ o + bs.length ≤ off) :
    slice (blit m o bs) off len = slice m off len := by
  refine slice_congr fun i h₁ h₂ => blit_of_disjoint ?_
  omega

/-! ## Little-endian integers -/

/-- The lowest `k` bytes of `n`, lowest first. -/
def bytesOf (n : Nat) : Nat → List UInt8
  | 0 => []
  | k + 1 => UInt8.ofNat (n % 256) :: bytesOf (n / 256) k

/-- The number whose bytes these are. -/
def natOf : List UInt8 → Nat
  | [] => 0
  | b :: bs => b.toNat + 256 * natOf bs

@[simp] theorem length_bytesOf (n k : Nat) : (bytesOf n k).length = k := by
  induction k generalizing n with
  | zero => rfl
  | succ k ih => simp [bytesOf, ih]

theorem natOf_bytesOf (n k : Nat) : natOf (bytesOf n k) = n % 256 ^ k := by
  induction k generalizing n with
  | zero => simp [bytesOf, natOf, Nat.mod_one]
  | succ k ih =>
    have hbyte : (UInt8.ofNat (n % 256)).toNat = n % 256 := by
      simp
    rw [bytesOf, natOf, ih, hbyte, Nat.pow_succ, Nat.mul_comm (256 ^ k) 256, Nat.mod_mul]

theorem natOf_lt (bs : List UInt8) : natOf bs < 256 ^ bs.length := by
  induction bs with
  | nil => simp [natOf]
  | cons b bs ih =>
    have hb := b.toNat_lt
    rw [natOf, List.length_cons, Nat.pow_succ]
    omega

theorem bytesOf_natOf (bs : List UInt8) : bytesOf (natOf bs) bs.length = bs := by
  induction bs with
  | nil => rfl
  | cons b bs ih =>
    have hb := b.toNat_lt
    have hmod : (b.toNat + 256 * natOf bs) % 256 = b.toNat := by omega
    have hdiv : (b.toNat + 256 * natOf bs) / 256 = natOf bs := by omega
    rw [natOf, List.length_cons, bytesOf, hmod, hdiv, ih, UInt8.ofNat_toNat]

/-- The unsigned integer of `k` bytes at `off`. -/
def readLE (m : Mem) (off k : Nat) : Nat := natOf (slice m off k)

/-- Write the unsigned integer `n` of `k` bytes at `off`. -/
def writeLE (m : Mem) (off k n : Nat) : Mem := blit m off (bytesOf n k)

theorem readLE_writeLE_self (m : Mem) (off k n : Nat) :
    readLE (writeLE m off k n) off k = n % 256 ^ k := by
  have h := slice_blit_self m off (bytesOf n k)
  rw [length_bytesOf] at h
  rw [readLE, writeLE, h, natOf_bytesOf]

theorem readLE_writeLE_disjoint (m : Mem) {off k o k' n : Nat} (h : off + k ≤ o ∨ o + k' ≤ off) :
    readLE (writeLE m o k' n) off k = readLE m off k := by
  rw [readLE, writeLE, slice_blit_disjoint m (by simpa using h), readLE]

theorem slice_writeLE_disjoint (m : Mem) {off len o k n : Nat}
    (h : off + len ≤ o ∨ o + k ≤ off) : slice (writeLE m o k n) off len = slice m off len :=
  slice_blit_disjoint m (by simpa using h)

theorem readLE_blit_disjoint (m : Mem) {off k o : Nat} {bs : List UInt8}
    (h : off + k ≤ o ∨ o + bs.length ≤ off) : readLE (blit m o bs) off k = readLE m off k := by
  rw [readLE, slice_blit_disjoint m h, readLE]

/-! ## Signed 32-bit integers -/

/-- The signed integer with the given 32-bit pattern. -/
def int32OfNat (n : Nat) : Int := if n < 2 ^ 31 then n else (n : Int) - 2 ^ 32

/-- The 32-bit pattern of an integer. -/
def natOfInt32 (v : Int) : Nat := (v % 2 ^ 32).toNat

/-- The integers a signed 32-bit word can hold. -/
def IsInt32 (v : Int) : Prop := -2 ^ 31 ≤ v ∧ v < 2 ^ 31

instance (v : Int) : Decidable (IsInt32 v) := inferInstanceAs (Decidable (_ ∧ _))

/-- The value of a signed 32-bit word after an operation whose exact result is `v`. A result
that does not fit wraps around, as it does on the machine. -/
def int32 (v : Int) : Int := Int.bmod v (2 ^ 32)

theorem int32_eq {v : Int} (h : IsInt32 v) : int32 v = v := by
  obtain ⟨hlo, hhi⟩ := h
  exact Int.bmod_eq_of_le (by omega) (by omega)

theorem int32_add (v w : Int) : int32 (int32 v + w) = int32 (v + w) :=
  Int.bmod_add_bmod

/-- An increment that fits. -/
theorem int32_succ {v : Int} (h0 : 0 ≤ v) (h : v + 1 < 2 ^ 31) : int32 (v + 1) = v + 1 :=
  int32_eq ⟨by omega, h⟩

theorem int32OfNat_natOfInt32 {v : Int} (h : IsInt32 v) : int32OfNat (natOfInt32 v) = v := by
  obtain ⟨hlo, hhi⟩ := h
  by_cases hv : natOfInt32 v < 2 ^ 31
  · rw [int32OfNat, if_pos hv]
    simp only [natOfInt32] at hv ⊢
    omega
  · rw [int32OfNat, if_neg hv]
    simp only [natOfInt32] at hv ⊢
    omega

theorem natOfInt32_lt (v : Int) : natOfInt32 v < 256 ^ 4 := by
  simp only [natOfInt32]
  omega

/-- The signed 32-bit integer at `off`. -/
def readInt32 (m : Mem) (off : Nat) : Int := int32OfNat (readLE m off 4)

/-- Write a signed 32-bit integer at `off`. -/
def writeInt32 (m : Mem) (off : Nat) (v : Int) : Mem := writeLE m off 4 (natOfInt32 v)

theorem readInt32_writeInt32_self (m : Mem) (off : Nat) {v : Int} (h : IsInt32 v) :
    readInt32 (writeInt32 m off v) off = v := by
  rw [readInt32, writeInt32, readLE_writeLE_self, Nat.mod_eq_of_lt (natOfInt32_lt v),
    int32OfNat_natOfInt32 h]

/-! ## Unsigned 32-bit subtraction -/

/-- The difference of two unsigned numbers as a `uint32_t`, which wraps. -/
def subUInt32 (a b : Nat) : Nat := (((a : Int) - b) % 2 ^ 32).toNat

theorem subUInt32_of_le {a b : Nat} (hle : b ≤ a) (hlt : a < 2 ^ 32) : subUInt32 a b = a - b := by
  simp only [subUInt32]
  omega

end Cpp
