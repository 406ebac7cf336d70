import OneBase.Storage.Tuple

/-!
# The bytes of a tuple (`storage/table/tuple.cpp`, `type/value.cpp`)

The constructor of `Tuple` makes room for a value by its `GetSerializedSize` and lets
`SerializeTo` write there. Somebody who knows the types can walk the bytes: read a value,
go on by its size.

- `Tuple.construct`: the constructor with its buffer; `construct_eq` says when it is
  `Tuple.ofValues`.
- `decodeFrom_serializeAll`: the walk over the bytes of some values.
- `construct_decodes`: the walk reads a tuple back, and where it ends.
-/

namespace OneBase

namespace Tuple

/-- `SerializeTo` at a position of the buffer. No value stands for a write past its end. -/
def writeAt (data : List UInt8) (pos : Nat) (bytes : List UInt8) : Option (List UInt8) :=
  if pos + bytes.length ≤ data.length then
    some (data.take pos ++ bytes ++ data.drop (pos + bytes.length))
  else none

/-- The loop of the constructor: `data_` grows by the size of the value, which is written into
the new part. -/
def constructFrom : List Value → List UInt8 → Option (List UInt8)
  | [], data => some data
  | val :: vals, data => do
    let oldSize := data.length
    let valSize ← val.getSerializedSize
    let bytes ← val.serialize
    let data ← writeAt (data ++ List.replicate valSize 0) oldSize bytes
    constructFrom vals data

/-- Model of the constructor from values. -/
def construct (values : List Value) : Option Tuple :=
  (constructFrom values []).map fun data => { data, values }

/-- Model of `GetLength`, which is 32 bits wide. -/
def getLength (t : Tuple) : Nat := t.data.length % 2 ^ 32

/-- The walk over the bytes from `pos` on: a value of each type, and the position after
them. -/
def decodeFrom (data : List UInt8) : List TypeId → Nat → Option (List Value × Nat)
  | [], pos => some ([], pos)
  | type :: types, pos => do
    let val ← Value.deserializeFrom (data.drop pos) type
    let valSize ← val.getSerializedSize
    let (vals, stop) ← decodeFrom data types (pos + valSize)
    return (val :: vals, stop)

/-- A string that its `GetSerializedSize` counts right. -/
def ShortStrings (values : List Value) : Prop :=
  ∀ s, .varchar s ∈ values → s.length < 2 ^ 32 - 4

theorem ShortStrings.cons {v : Value} {vs : List Value} (h : ShortStrings (v :: vs)) :
    (∀ s, v = .varchar s → s.length < 2 ^ 32 - 4) ∧ ShortStrings vs :=
  ⟨fun s hs => h s (hs ▸ List.mem_cons_self), fun s hs => h s (List.mem_cons_of_mem _ hs)⟩

/-- **The three switches agree**: a value has bytes, as many as its size says. -/
theorem exists_bytes {v : Value} (hnull : v.isNull = false)
    (hlen : ∀ s, v = .varchar s → s.length < 2 ^ 32 - 4) :
    ∃ bytes, v.serialize = some bytes ∧ v.getSerializedSize = some bytes.length := by
  obtain ⟨bytes, hbytes⟩ := Value.exists_serialize hnull
  refine ⟨bytes, hbytes, Value.length_serialize hbytes ?_⟩
  cases v with
  | null => cases hnull
  | varchar s =>
    have hs := hlen s rfl
    obtain rfl := Option.some.inj hbytes
    rw [List.length_append, Cpp.length_bytesOf]
    omega
  | _ =>
    obtain rfl := Option.some.inj hbytes
    simp

/-! ## The constructor -/

/-- A value that fills the new part of the buffer. -/
theorem writeAt_grown (data bytes : List UInt8) :
    writeAt (data ++ List.replicate bytes.length 0) data.length bytes = some (data ++ bytes) := by
  have hlen : (data ++ List.replicate bytes.length 0).length = data.length + bytes.length := by
    rw [List.length_append, List.length_replicate]
  rw [writeAt, if_pos hlen.ge, List.take_left, List.drop_of_length_le hlen.le, List.append_nil]

/-- **The constructor appends the bytes of its values.** -/
theorem constructFrom_eq {values : List Value} (hnull : ∀ v ∈ values, v.isNull = false)
    (hshort : ShortStrings values) (data : List UInt8) :
    constructFrom values data = (serializeAll values).map (data ++ ·) := by
  induction values generalizing data with
  | nil => simp [constructFrom, serializeAll]
  | cons v vs ih =>
    obtain ⟨hv, hvs⟩ := hshort.cons
    obtain ⟨bytes, hbytes, hsize⟩ := exists_bytes (hnull v List.mem_cons_self) hv
    have hrest := ih (fun w hw => hnull w (List.mem_cons_of_mem _ hw)) hvs
    simp only [constructFrom, hsize, hbytes, Option.bind_eq_bind, Option.bind_some, writeAt_grown,
      hrest, serializeAll]
    cases serializeAll vs with
    | none => rfl
    | some rest =>
      show some (data ++ bytes ++ rest) = some (data ++ (bytes ++ rest))
      rw [List.append_assoc]

/-- The constructor with its buffer gives the tuple of the bytes of the values. -/
theorem construct_eq {values : List Value} (hnull : ∀ v ∈ values, v.isNull = false)
    (hshort : ShortStrings values) : construct values = ofValues values := by
  rw [construct, constructFrom_eq hnull hshort, ofValues, Option.map_map]
  rfl

/-- Values that are not NULL have bytes, as many as their sizes. -/
theorem exists_serializeAll {values : List Value} (hnull : ∀ v ∈ values, v.isNull = false) :
    ∃ data, serializeAll values = some data ∧ data.length = sizeSum values := by
  induction values with
  | nil => exact ⟨[], rfl, rfl⟩
  | cons v vs ih =>
    obtain ⟨rest, hrest, hlen⟩ := ih fun w hw => hnull w (List.mem_cons_of_mem _ hw)
    obtain ⟨bytes, hbytes⟩ := Value.exists_serialize (hnull v List.mem_cons_self)
    refine ⟨bytes ++ rest, by rw [serializeAll, hbytes, hrest], ?_⟩
    simp [sizeSum, Value.size, hbytes, hlen]

/-! ## The walk -/

/-- **The walk reads the values back**, whatever stands before and after them. -/
theorem decodeFrom_serializeAll {values : List Value} (hnull : ∀ v ∈ values, v.isNull = false)
    (hshort : ShortStrings values) {bytes : List UInt8} (hbytes : serializeAll values = some bytes)
    (before rest : List UInt8) :
    decodeFrom (before ++ bytes ++ rest) (values.map Value.getTypeId) before.length =
      some (values, before.length + bytes.length) := by
  induction values generalizing bytes before with
  | nil =>
    obtain rfl := Option.some.inj hbytes
    rfl
  | cons v vs ih =>
    obtain ⟨hv, hvs⟩ := hshort.cons
    obtain ⟨vbytes, hvbytes, hsize⟩ := exists_bytes (hnull v List.mem_cons_self) hv
    rw [serializeAll, hvbytes] at hbytes
    cases hall : serializeAll vs with
    | none =>
      rw [hall] at hbytes
      cases hbytes
    | some vsbytes =>
      rw [hall] at hbytes
      obtain rfl : vbytes ++ vsbytes = bytes := Option.some.inj hbytes
      -- the value stands first in what is left, and the walk goes on behind it
      have hread : Value.deserializeFrom
          ((before ++ (vbytes ++ vsbytes) ++ rest).drop before.length) v.getTypeId = some v := by
        rw [List.append_assoc, List.drop_left, List.append_assoc]
        exact Value.deserializeFrom_serialize (hnull v List.mem_cons_self)
          (fun s hs => by
            have := hv s hs
            omega) hvbytes _
      have hnext := ih (fun w hw => hnull w (List.mem_cons_of_mem _ hw)) hvs hall (before ++ vbytes)
      have hdata : before ++ vbytes ++ vsbytes ++ rest = before ++ (vbytes ++ vsbytes) ++ rest := by
        rw [List.append_assoc before]
      rw [hdata, List.length_append] at hnext
      simp only [List.map_cons, decodeFrom, hread, hsize, hnext, Option.bind_eq_bind,
        Option.bind_some, List.length_append, Nat.add_assoc]
      rfl

/-- What the constructor and the walk do with a list of values. -/
theorem decodeFrom_construct {values : List Value} (hnull : ∀ v ∈ values, v.isNull = false)
    (hshort : ShortStrings values) :
    ∃ t, construct values = some t ∧ t.data.length = sizeSum values ∧
      decodeFrom t.data (values.map Value.getTypeId) 0 = some (values, sizeSum values) := by
  obtain ⟨data, hdata, hlen⟩ := exists_serializeAll hnull
  refine ⟨{ data, values }, ?_, hlen, ?_⟩
  · rw [construct_eq hnull hshort, ofValues, hdata]
    rfl
  · have hwalk := decodeFrom_serializeAll hnull hshort hdata [] []
    rwa [List.nil_append, List.append_nil, List.length_nil, Nat.zero_add, hlen] at hwalk

/-- **The bytes of a tuple are uniquely decodable.** The walk recovers the values and ends at
the number of bytes, which `GetLength` gives if and only if it fits in 32 bits. -/
theorem construct_decodes {values : List Value} (hnull : ∀ v ∈ values, v.isNull = false)
    (hshort : ∀ s, .varchar s ∈ values → s.length < 2 ^ 32 - 4) :
    ∃ t, construct values = some t ∧ t.data.length = sizeSum values ∧
      decodeFrom t.data (values.map Value.getTypeId) 0 = some (values, sizeSum values) ∧
      (sizeSum values = t.getLength ↔ sizeSum values < 2 ^ 32) := by
  obtain ⟨t, ht, hlen, hwalk⟩ := decodeFrom_construct hnull hshort
  refine ⟨t, ht, hlen, hwalk, ?_⟩
  rw [getLength, hlen]
  constructor
  · intro heq
    rw [heq]
    exact Nat.mod_lt _ (by decide)
  · exact fun hlt => (Nat.mod_eq_of_lt hlt).symm

theorem construct_decodes_mixed :
    ∃ t, construct [.varchar [104, 105], .integer 42, .boolean true] = some t ∧
      decodeFrom t.data [.varchar, .integer, .boolean] 0 =
        some ([.varchar [104, 105], .integer 42, .boolean true], t.getLength) := by
  obtain ⟨t, ht, -, hwalk, hlen⟩ :=
    @construct_decodes [.varchar [104, 105], .integer 42, .boolean true] (by decide) (fun s hs => by
      obtain rfl : s = [104, 105] := by simpa using hs
      decide)
  exact ⟨t, ht, hlen.mpr (by decide) ▸ hwalk⟩

/-- Two strings of `n` zero bytes each. -/
def twoStrings (n : Nat) : List Value :=
  [.varchar (List.replicate n 0), .varchar (List.replicate n 0)]

theorem length_of_mem_twoStrings {n : Nat} {s : List UInt8} (hs : .varchar s ∈ twoStrings n) :
    s.length = n := by
  obtain rfl : s = List.replicate n 0 := by simpa [twoStrings] using hs
  exact List.length_replicate

theorem sizeSum_twoStrings (n : Nat) : sizeSum (twoStrings n) = 2 * n + 8 := by
  simp only [sizeSum, twoStrings, List.map_cons, List.map_nil, List.sum_cons, List.sum_nil,
    Value.size, Value.serialize, Option.elim_some, List.length_append, Cpp.length_bytesOf,
    List.length_replicate]
  omega

theorem not_null_twoStrings (n : Nat) : ∀ v ∈ twoStrings n, v.isNull = false := by
  simp [twoStrings, Value.isNull]

/-- Two strings of two GiB each: the walk ends behind their bytes, but `GetLength` gives 8. -/
theorem decodeFrom_two_long_strings :
    (∀ v ∈ twoStrings (2 ^ 31), v.isNull = false) ∧
      (∀ s, .varchar s ∈ twoStrings (2 ^ 31) → s.length < 2 ^ 32) ∧
      ∃ t, construct (twoStrings (2 ^ 31)) = some t ∧
        decodeFrom t.data ((twoStrings (2 ^ 31)).map Value.getTypeId) 0 =
          some (twoStrings (2 ^ 31), 2 ^ 32 + 8) ∧
        t.getLength = 8 := by
  have hlen : ∀ s, .varchar s ∈ twoStrings (2 ^ 31) → s.length < 2 ^ 32 - 4 := fun s hs => by
    rw [length_of_mem_twoStrings hs]
    decide
  obtain ⟨t, ht, hdata, hwalk⟩ := decodeFrom_construct (not_null_twoStrings (2 ^ 31)) hlen
  rw [sizeSum_twoStrings] at hdata hwalk
  refine ⟨not_null_twoStrings _, fun s hs => Nat.lt_of_lt_of_le (hlen s hs) (Nat.sub_le _ _), t, ht,
    hwalk, ?_⟩
  rw [getLength, hdata]
  decide

end Tuple

end OneBase
