import OneBase.Lib.Bytes
import OneBase.Lib.Decimal

/-!
# Values (`type/value.cpp`)

A `Value` has a type and a payload in a union, or is NULL with a type. The
constructors of the source are always called with a payload of the type they are
given, so the model has one constructor for each type. Strings are byte strings,
floats their four bytes.

A `none` is an exception (`UNREACHABLE`, `ONEBASE_ASSERT`) or a read past the end
of a buffer.

- `toString_injective`: values of one type have different texts, floats apart.
- `deserializeFrom_serialize`: a value that is not NULL is read back from its
  bytes, whatever follows them.
-/

namespace OneBase

open Cpp

/-- The types of a column (`type_id.h`). -/
inductive TypeId where
  | invalid
  | boolean
  | integer
  | float
  | varchar
  deriving DecidableEq, Repr

/-- Model of `Value`. -/
inductive Value where
  | null (type : TypeId)
  | boolean (b : Bool)
  | integer (i : Int32)
  | float (bits : UInt32)
  | varchar (s : List UInt8)
  deriving DecidableEq

namespace Value

/-- Model of `GetTypeId`. -/
def getTypeId : Value → TypeId
  | null type => type
  | boolean _ => .boolean
  | integer _ => .integer
  | float _ => .float
  | varchar _ => .varchar

/-- Model of `IsNull`. -/
def isNull : Value → Bool
  | null _ => true
  | _ => false

/-- Model of `GetAsInteger`. A NULL has the payload 0. -/
def getAsInteger : Value → Option Int32
  | integer i => some i
  | null .integer => some 0
  | _ => none

/-- Model of `GetAsBoolean`. -/
def getAsBoolean : Value → Option Bool
  | boolean b => some b
  | null .boolean => some false
  | _ => none

/-- The test `!v.IsNull() && v.GetAsBoolean()`. -/
def isTrue (v : Value) : Option Bool := if v.isNull then some false else v.getAsBoolean

@[simp] theorem isTrue_boolean (b : Bool) : (boolean b).isTrue = some b := rfl

@[simp] theorem getAsInteger_integer (i : Int32) : (integer i).getAsInteger = some i := rfl

/-- Model of `GetAsFloat`. -/
def getAsFloat : Value → Option UInt32
  | float bits => some bits
  | null .float => some 0
  | _ => none

/-- Model of `GetAsString`. -/
def getAsString : Value → Option (List UInt8)
  | varchar s => some s
  | null .varchar => some []
  | _ => none

/-! ## Comparison -/

/-- Whether a float is not a number. -/
def floatIsNaN (bits : UInt32) : Bool := decide (2139095040 < bits.toNat % 2 ^ 31)

/-- A number that orders the floats: the sign and the other 31 bits. -/
def floatKey (bits : UInt32) : Int :=
  if bits.toNat < 2 ^ 31 then bits.toNat else -(bits.toNat % 2 ^ 31 : Nat)

/-- A comparison of floats, which is false if one is not a number. -/
def compareFloats (test : Int → Int → Bool) (a b : UInt32) : Bool :=
  !floatIsNaN a && !floatIsNaN b && test (floatKey a) (floatKey b)

/-- The six comparisons differ in the tests, and only two of them compare BOOLEANs. -/
def compareWith (integers : Int32 → Int32 → Bool) (floats : UInt32 → UInt32 → Bool)
    (strings : List UInt8 → List UInt8 → Bool) (booleans : Option (Bool → Bool → Bool))
    (v o : Value) : Option Value :=
  if v.getTypeId ≠ o.getTypeId then none
  else
    match v.getTypeId with
    | .integer => (v.getAsInteger.bind fun a => o.getAsInteger.map (integers a)).map boolean
    | .float => (v.getAsFloat.bind fun a => o.getAsFloat.map (floats a)).map boolean
    | .varchar => (v.getAsString.bind fun a => o.getAsString.map (strings a)).map boolean
    | .boolean =>
      booleans.bind fun test =>
        (v.getAsBoolean.bind fun a => o.getAsBoolean.map (test a)).map boolean
    | .invalid => none

/-- Model of `CompareLessThan`. -/
def compareLessThan : Value → Value → Option Value :=
  compareWith (fun a b => decide (a < b)) (compareFloats fun a b => decide (a < b))
    (fun a b => decide (a < b)) none

/-- Model of `CompareGreaterThan`. -/
def compareGreaterThan : Value → Value → Option Value :=
  compareWith (fun a b => decide (b < a)) (compareFloats fun a b => decide (b < a))
    (fun a b => decide (b < a)) none

/-- Model of `CompareLessThanOrEqual`. -/
def compareLessThanOrEqual : Value → Value → Option Value :=
  compareWith (fun a b => decide (a ≤ b)) (compareFloats fun a b => decide (a ≤ b))
    (fun a b => decide (a ≤ b)) none

/-- Model of `CompareGreaterThanOrEqual`. -/
def compareGreaterThanOrEqual : Value → Value → Option Value :=
  compareWith (fun a b => decide (b ≤ a)) (compareFloats fun a b => decide (b ≤ a))
    (fun a b => decide (b ≤ a)) none

/-- Model of `CompareEquals`. -/
def compareEquals : Value → Value → Option Value :=
  compareWith (fun a b => a == b) (compareFloats fun a b => a == b) (fun a b => a == b)
    (some fun a b => a == b)

/-- Model of `CompareNotEquals`; two floats one of which is not a number are not equal. -/
def compareNotEquals : Value → Value → Option Value :=
  compareWith (fun a b => a != b) (fun a b => !compareFloats (fun a b => a == b) a b)
    (fun a b => a != b) (some fun a b => a != b)

/-! ## Arithmetic and logic -/

/-- An INTEGER, if the exact result fits in 32 bits; signed overflow is undefined
behaviour. -/
def ofExact (i : Int) : Option Value :=
  if Cpp.IsInt32 i then some (integer (Int32.ofInt i)) else none

/-- The arithmetic operators, on integers and on floats; there is no `Modulo` of
floats. -/
def arithmeticWith (integers : Int → Int → Option Int)
    (floats : Option (Float32 → Float32 → Float32))
    (v o : Value) : Option Value :=
  if v.getTypeId ≠ o.getTypeId then none
  else
    match v.getTypeId with
    | .integer =>
      (v.getAsInteger.bind fun a => o.getAsInteger.bind fun b =>
        integers a.toInt b.toInt).bind ofExact
    | .float =>
      floats.bind fun op => v.getAsFloat.bind fun a => o.getAsFloat.map fun b =>
        float (op (Float32.ofBits a) (Float32.ofBits b)).toBits
    | _ => none

/-- Model of `Add`. -/
def add : Value → Value → Option Value :=
  arithmeticWith (fun a b => some (a + b)) (some (· + ·))

/-- Model of `Subtract`. -/
def subtract : Value → Value → Option Value :=
  arithmeticWith (fun a b => some (a - b)) (some (· - ·))

/-- Model of `Multiply`. -/
def multiply : Value → Value → Option Value :=
  arithmeticWith (fun a b => some (a * b)) (some (· * ·))

/-- Model of `Divide`: a division by zero throws. -/
def divide (v o : Value) : Option Value :=
  if o.getTypeId = .float ∧ (o.getAsFloat.map fun b => floatKey b == 0) = some true then none
  else
    arithmeticWith (fun a b => if b = 0 then none else some (a.tdiv b)) (some (· / ·)) v o

/-- Model of `Modulo`. The quotient must fit too. -/
def modulo : Value → Value → Option Value :=
  arithmeticWith (fun a b => if b = 0 ∨ ¬ Cpp.IsInt32 (a.tdiv b) then none else some (a.tmod b))
    none

/-- Model of `And`. -/
def and (v o : Value) : Option Value :=
  v.getAsBoolean.bind fun a => o.getAsBoolean.map fun b => boolean (a && b)

/-- Model of `Or`. -/
def or (v o : Value) : Option Value :=
  v.getAsBoolean.bind fun a => o.getAsBoolean.map fun b => boolean (a || b)

/-! ## Text -/

/-- A non-negative float that is a number is `m * 2 ^ e / 2 ^ 150`. This is 100 times
that, rounded to the nearest integer, a tie to the even one. -/
def floatHundredths (m e : Nat) : Nat :=
  let num := m * 100 * 2 ^ e
  let q := num / 2 ^ 150
  let r := num % 2 ^ 150
  if 2 * r < 2 ^ 150 ∨ 2 * r = 2 ^ 150 ∧ q % 2 = 0 then q else q + 1

/-- The text of a float with two decimals (`fmt::format("{:.2f}", x)`). -/
def floatText (bits : UInt32) : List UInt8 :=
  let sign : List UInt8 := if bits.toNat < 2 ^ 31 then [] else [45]
  let expo := bits.toNat / 2 ^ 23 % 256
  let frac := bits.toNat % 2 ^ 23
  if expo = 255 then sign ++ if frac = 0 then [105, 110, 102] else [110, 97, 110]
  else
    let h := if expo = 0 then floatHundredths frac 1 else floatHundredths (2 ^ 23 + frac) expo
    sign ++ decimal (h / 100) ++ 46 :: (decimal (h / 10 % 10) ++ decimal (h % 10))

/-- Model of `ToString`: `NULL`, `true`, `false`, a number or the string. -/
def toString : Value → List UInt8
  | null _ => [78, 85, 76, 76]
  | boolean b => if b then [116, 114, 117, 101] else [102, 97, 108, 115, 101]
  | integer i => decimalInt i.toInt
  | float bits => floatText bits
  | varchar s => s

/-- **The texts of two values of one type are different**, floats apart, which are
rounded. -/
theorem toString_injective {v o : Value} (hv : v.isNull = false) (ho : o.isNull = false)
    (htype : v.getTypeId = o.getTypeId) (hfloat : v.getTypeId ≠ .float)
    (h : v.toString = o.toString) : v = o := by
  cases v with
  | null => cases hv
  | float => exact absurd rfl hfloat
  | boolean b =>
    cases o with
    | boolean c => cases b <;> cases c <;> first | rfl | cases h
    | null => cases ho
    | integer => cases htype
    | float => cases htype
    | varchar => cases htype
  | integer i =>
    cases o with
    | integer j => rw [Int32.toInt_inj.mp (decimalInt_injective h)]
    | null => cases ho
    | boolean => cases htype
    | float => cases htype
    | varchar => cases htype
  | varchar s =>
    cases o with
    | varchar t => exact congrArg varchar h
    | null => cases ho
    | boolean => cases htype
    | integer => cases htype
    | float => cases htype

/-! ## Serialization -/

/-- Model of `SerializeTo`: the bytes that are written. -/
def serialize : Value → Option (List UInt8)
  | boolean b => some [if b then 1 else 0]
  | integer i => some (bytesOf i.toUInt32.toNat 4)
  | float bits => some (bytesOf bits.toNat 4)
  | varchar s => some (bytesOf s.length 4 ++ s)
  | null .boolean => some [0]
  | null .integer => some (bytesOf 0 4)
  | null .float => some (bytesOf 0 4)
  | null .varchar => some (bytesOf 0 4)
  | null .invalid => none

/-- Model of `GetSerializedSize`. -/
def getSerializedSize : Value → Option Nat
  | boolean _ => some 1
  | integer _ => some 4
  | float _ => some 4
  | varchar s => some ((4 + s.length) % 2 ^ 32)
  | null .boolean => some 1
  | null .integer => some 4
  | null .float => some 4
  | null .varchar => some 4
  | null .invalid => none

/-- Model of `DeserializeFrom` on the bytes from `storage` on. -/
def deserializeFrom (storage : List UInt8) : TypeId → Option Value
  | .boolean => storage.head?.map fun b => boolean (b != 0)
  | .integer =>
    if storage.length < 4 then none
    else some (integer (UInt32.ofNat (natOf (storage.take 4))).toInt32)
  | .float =>
    if storage.length < 4 then none else some (float (UInt32.ofNat (natOf (storage.take 4))))
  | .varchar =>
    let len := natOf (storage.take 4)
    if storage.length < 4 + len then none else some (varchar ((storage.drop 4).take len))
  | .invalid => none

/-- The four bytes of a word are read back. -/
theorem ofNat_natOf_take (w : UInt32) (rest : List UInt8) :
    UInt32.ofNat (natOf ((bytesOf w.toNat 4 ++ rest).take 4)) = w := by
  have hlen : (bytesOf w.toNat 4).length = 4 := length_bytesOf _ _
  have hmod : w.toNat % 256 ^ 4 = w.toNat := Nat.mod_eq_of_lt w.toNat_lt
  rw [List.take_append_of_le_length (Nat.le_of_eq hlen.symm),
    List.take_of_length_le (Nat.le_of_eq hlen), natOf_bytesOf, hmod, UInt32.ofNat_toNat]

/-- **A value is read back** from its bytes. -/
theorem deserializeFrom_serialize {v : Value} {bytes : List UInt8} (hnull : v.isNull = false)
    (hlen : ∀ s, v = varchar s → s.length < 2 ^ 32) (hbytes : v.serialize = some bytes)
    (rest : List UInt8) : deserializeFrom (bytes ++ rest) v.getTypeId = some v := by
  cases v with
  | null => cases hnull
  | boolean b =>
    obtain rfl := Option.some.inj hbytes
    cases b <;> rfl
  | integer i =>
    obtain rfl := Option.some.inj hbytes
    have hlong : ¬ (bytesOf i.toUInt32.toNat 4 ++ rest).length < 4 := by
      simp
    simp only [getTypeId, deserializeFrom, if_neg hlong, ofNat_natOf_take, Int32.toInt32_toUInt32]
  | float bits =>
    obtain rfl := Option.some.inj hbytes
    have hlong : ¬ (bytesOf bits.toNat 4 ++ rest).length < 4 := by
      simp
    simp only [getTypeId, deserializeFrom, if_neg hlong, ofNat_natOf_take]
  | varchar s =>
    obtain rfl := Option.some.inj hbytes
    have hmod : s.length % 256 ^ 4 = s.length := Nat.mod_eq_of_lt (hlen s rfl)
    have htake : (bytesOf s.length 4 ++ s ++ rest).take 4 = bytesOf s.length 4 := by
      rw [List.append_assoc, List.take_append_of_le_length (by simp),
        List.take_of_length_le (by simp)]
    have hdrop : (bytesOf s.length 4 ++ s ++ rest).drop 4 = s ++ rest := by
      rw [List.append_assoc, List.drop_append_of_le_length (by simp),
        List.drop_of_length_le (by simp), List.nil_append]
    have hlong : ¬ (bytesOf s.length 4 ++ s ++ rest).length < 4 + s.length := by
      simp
    simp only [getTypeId, deserializeFrom, htake, natOf_bytesOf, hmod, if_neg hlong, hdrop,
      List.take_left]

/-- The size is the number of bytes, if it fits in 32 bits. -/
theorem length_serialize {v : Value} {bytes : List UInt8} (hbytes : v.serialize = some bytes)
    (hlen : bytes.length < 2 ^ 32) : v.getSerializedSize = some bytes.length := by
  cases v with
  | null type =>
    cases type with
    | invalid => cases hbytes
    | _ =>
      obtain rfl := Option.some.inj hbytes
      simp [getSerializedSize]
  | varchar s =>
    obtain rfl := Option.some.inj hbytes
    rw [List.length_append, length_bytesOf] at hlen ⊢
    rw [getSerializedSize, Nat.mod_eq_of_lt hlen]
  | _ =>
    obtain rfl := Option.some.inj hbytes
    simp [getSerializedSize]

end Value

end OneBase
