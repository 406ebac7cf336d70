import Mathlib.Data.List.Forall2
import OneBase.Common.Types
import OneBase.Type.Value

/-!
# Columns, schemas and tuples (`catalog/column.h`, `catalog/schema.h`, `storage/table/tuple.cpp`)

A schema gives each column an offset; a tuple is built from values, whose bytes
stand one after the other, or from the bytes of a stored tuple, whose values are
read at the offsets of the schema.

- `Row`: values that are not NULL and have the types of the columns.
- `getValue_of_aligned`: a column is read back if the values before it take the widths
  of their columns.
- `getValue_ofBytes`: so it is for INTEGER and BOOLEAN columns.
-/

namespace OneBase

/-- Model of `Column`. The fixed and the variable length are functions of the type. -/
structure Column where
  name : String
  type : TypeId
  length : Nat := 0
  offset : Nat := 0
  deriving DecidableEq

namespace Column

/-- Model of `GetFixedLengthFor`. -/
def getFixedLengthFor : TypeId → Nat
  | .boolean => 1
  | .integer => 4
  | .float => 8
  | _ => 0

/-- Model of `GetFixedLength`. -/
def getFixedLength (c : Column) : Nat :=
  if c.type = .varchar then 4 else getFixedLengthFor c.type

/-- Model of `IsInlined`. -/
def isInlined (c : Column) : Bool := c.type != .varchar

/-- What the constructor of `Schema` adds to the offset for the column. -/
def width (c : Column) : Nat := if c.isInlined then c.getFixedLength else 4

end Column

/-- Model of `Schema`, by the columns that the constructor is given. -/
structure Schema where
  given : List Column
  deriving DecidableEq

namespace Schema

/-- The loop of the constructor: the columns with their offsets. -/
def setOffsets : Nat → List Column → List Column
  | _, [] => []
  | offset, col :: cols =>
    { col with offset := offset } ::
      setOffsets (offset + col.width) cols

/-- The member `columns_`. -/
def columns (schema : Schema) : List Column := setOffsets 0 schema.given

/-- The sum of the widths of some columns. -/
def widthSum (cols : List Column) : Nat := (cols.map Column.width).sum

/-- Model of `GetTupleLength`. -/
def getTupleLength (schema : Schema) : Nat := widthSum schema.given

/-- Model of `GetColumn`; an index out of range is undefined behaviour. -/
def getColumn (schema : Schema) (i : Nat) : Option Column := schema.columns[i]?

/-- Model of `GetColumnCount`. -/
def getColumnCount (schema : Schema) : Nat := schema.columns.length

/-- **A column stands after the widths of the columns before it.** -/
theorem getElem?_setOffsets (offset : Nat) (cols : List Column) (i : Nat) :
    (setOffsets offset cols)[i]? =
      cols[i]?.map fun c => { c with offset := offset + widthSum (cols.take i) } := by
  induction cols generalizing offset i with
  | nil => rfl
  | cons col cols ih =>
    cases i with
    | zero => simp [setOffsets, widthSum]
    | succ i => simp [setOffsets, ih, widthSum, Nat.add_assoc]

theorem getColumn_eq (schema : Schema) (i : Nat) :
    schema.getColumn i =
      schema.given[i]?.map fun c => { c with offset := widthSum (schema.given.take i) } := by
  rw [getColumn, columns, getElem?_setOffsets, Nat.zero_add]

theorem getColumn_type (schema : Schema) (i : Nat) :
    (schema.getColumn i).map Column.type = schema.given[i]?.map Column.type := by
  rw [getColumn_eq, Option.map_map]
  rfl

/-- A column that has a type is one of the schema. -/
theorem lt_getColumnCount {schema : Schema} {i : Nat} {type : TypeId}
    (htype : (schema.getColumn i).map Column.type = some type) : i < schema.getColumnCount := by
  obtain ⟨column, hcolumn, -⟩ := Option.map_eq_some_iff.mp htype
  exact (List.getElem?_eq_some_iff.mp hcolumn).1

theorem length_setOffsets (offset : Nat) (cols : List Column) :
    (setOffsets offset cols).length = cols.length := by
  induction cols generalizing offset with
  | nil => rfl
  | cons col cols ih => simp [setOffsets, ih]

theorem getColumnCount_eq (schema : Schema) : schema.getColumnCount = schema.given.length :=
  length_setOffsets 0 schema.given

end Schema

/-- Model of `Tuple`. -/
structure Tuple where
  rid : RID := {}
  data : List UInt8 := []
  values : List Value := []
  deriving DecidableEq

namespace Tuple

/-- The bytes of a list of values. -/
def serializeAll : List Value → Option (List UInt8)
  | [] => some []
  | v :: vs =>
    match v.serialize, serializeAll vs with
    | some bytes, some rest => some (bytes ++ rest)
    | _, _ => none

/-- The constructor from values. -/
def ofValues (values : List Value) : Option Tuple :=
  (serializeAll values).map fun data => { data, values }

/-- Model of `DeserializeFrom` and `SetRID`: a stored tuple, which has no values. -/
def ofBytes (rid : RID) (data : List UInt8) : Tuple := { rid, data }

/-- Model of `GetValue(schema, column_idx)`. -/
def getValue (t : Tuple) (schema : Schema) (i : Nat) : Option Value :=
  match t.values[i]? with
  | some v => some v
  | none =>
    match schema.getColumn i with
    | none => none
    | some column => Value.deserializeFrom (t.data.drop column.offset) column.type

/-- The loop that reads all columns (seq_scan_executor.cpp:28–31): the values from
column `i` on. -/
def getValuesFrom (t : Tuple) (schema : Schema) (i : Nat) : Nat → Option (List Value)
  | 0 => some []
  | n + 1 =>
    match t.getValue schema i, getValuesFrom t schema (i + 1) n with
    | some v, some vs => some (v :: vs)
    | _, _ => none

/-- The values of all columns. -/
def getValues (t : Tuple) (schema : Schema) : Option (List Value) :=
  t.getValuesFrom schema 0 schema.getColumnCount

/-- A tuple that was built from values returns them. -/
theorem getValue_ofValues {values : List Value} {t : Tuple} (h : ofValues values = some t)
    (schema : Schema) {i : Nat} (hi : i < values.length) :
    t.getValue schema i = some values[i] := by
  obtain ⟨data, -, rfl⟩ := Option.map_eq_some_iff.mp h
  simp [getValue, hi]

/-- The loop returns the values of the columns it visits. -/
theorem getElem_getValuesFrom {t : Tuple} {schema : Schema} {n : Nat} :
    ∀ {i : Nat} {values : List Value}, t.getValuesFrom schema i n = some values →
      values.length = n ∧ ∀ j, j < n → values[j]? = t.getValue schema (i + j) := by
  induction n with
  | zero =>
    intro i values h
    obtain rfl := Option.some.inj h
    exact ⟨rfl, fun j hj => absurd hj (Nat.not_lt_zero j)⟩
  | succ n ih =>
    intro i values h
    rw [getValuesFrom] at h
    cases hv : t.getValue schema i with
    | none =>
      rw [hv] at h
      cases h
    | some v =>
      cases hvs : t.getValuesFrom schema (i + 1) n with
      | none =>
        rw [hv, hvs] at h
        cases h
      | some vs =>
        rw [hv, hvs] at h
        obtain rfl := Option.some.inj h
        obtain ⟨hlen, hget⟩ := ih hvs
        refine ⟨by simp [hlen], fun j hj => ?_⟩
        cases j with
        | zero => exact hv.symm
        | succ j =>
          have hsum : i + (j + 1) = i + 1 + j := by omega
          rw [List.getElem?_cons_succ, hget j (Nat.lt_of_succ_lt_succ hj), hsum]

/-- The loop over the columns gives a list of values if it is read column by column. -/
theorem getValuesFrom_eq {t : Tuple} {schema : Schema} {n : Nat} :
    ∀ {i : Nat} {values : List Value}, values.length = n →
      (∀ j (hj : j < values.length), t.getValue schema (i + j) = some values[j]) →
      t.getValuesFrom schema i n = some values := by
  induction n with
  | zero =>
    intro i values hlen _
    rw [List.length_eq_zero_iff.mp hlen]
    rfl
  | succ n ih =>
    intro i values hlen hget
    cases values with
    | nil => cases hlen
    | cons v values =>
      have hhead := hget 0 (Nat.succ_pos _)
      have hrest : t.getValuesFrom schema (i + 1) n = some values := by
        refine ih (Nat.succ.inj hlen) fun j hj => ?_
        have hsum : i + 1 + j = i + (j + 1) := by omega
        rw [hsum]
        exact hget (j + 1) (Nat.succ_lt_succ hj)
      rw [getValuesFrom, hrest]
      simp only [Nat.add_zero, List.getElem_cons_zero] at hhead
      rw [hhead]

end Tuple

/-! ## Rows of INTEGER and BOOLEAN columns -/

/-- The columns are INTEGER or BOOLEAN. -/
def FixedColumns (columns : List Column) : Prop :=
  ∀ c ∈ columns, c.type = .integer ∨ c.type = .boolean

/-- The values are not NULL and have the types of the columns. -/
def Row (columns : List Column) (values : List Value) : Prop :=
  List.Forall₂ (fun c v => v.isNull = false ∧ v.getTypeId = c.type) columns values

theorem Row.length_eq {columns : List Column} {values : List Value} (h : Row columns values) :
    columns.length = values.length := List.Forall₂.length_eq h

/-- The value of a column of a row. -/
theorem Row.getElem {columns : List Column} {values : List Value} (h : Row columns values)
    {i : Nat} {c : Column} (hc : columns[i]? = some c) :
    ∃ v, values[i]? = some v ∧ v.isNull = false ∧ v.getTypeId = c.type := by
  obtain ⟨hlt, hget⟩ := List.getElem?_eq_some_iff.mp hc
  obtain ⟨hlen, hall⟩ := List.forall₂_iff_get.mp h
  have hlt' : i < values.length := hlen ▸ hlt
  have hv := hall i hlt hlt'
  simp only [List.get_eq_getElem, hget] at hv
  exact ⟨values[i], List.getElem?_eq_getElem hlt', hv⟩

/-- A string is in a VARCHAR column. -/
theorem Row.exists_varchar {columns : List Column} {values : List Value} (h : Row columns values)
    {s : List UInt8} (hs : .varchar s ∈ values) : ∃ c ∈ columns, c.type = .varchar := by
  obtain ⟨i, hi, hget⟩ := List.getElem_of_mem hs
  have hi' : i < columns.length := h.length_eq ▸ hi
  obtain ⟨v, hv, -, htype⟩ := h.getElem (List.getElem?_eq_getElem hi')
  obtain rfl : Value.varchar s = v := by
    rw [← hget]
    exact Option.some.inj ((List.getElem?_eq_getElem hi).symm.trans hv)
  exact ⟨_, List.getElem_mem hi', htype.symm⟩

/-! ## Where the values stand -/

/-- The number of bytes of a value. -/
def Value.size (v : Value) : Nat := v.serialize.elim 0 List.length

/-- The number of bytes of some values. -/
def sizeSum (values : List Value) : Nat := (values.map Value.size).sum

/-- A value that is not NULL has bytes. -/
theorem Value.exists_serialize {v : Value} (h : v.isNull = false) :
    ∃ bytes, v.serialize = some bytes := by
  cases v with
  | null => cases h
  | _ => exact ⟨_, rfl⟩

/-- The bytes of a list of values are those of its parts. -/
theorem Tuple.serializeAll_append {vs ws : List Value} {bytes rest : List UInt8}
    (hvs : serializeAll vs = some bytes) (hws : serializeAll ws = some rest) :
    serializeAll (vs ++ ws) = some (bytes ++ rest) := by
  induction vs generalizing bytes with
  | nil =>
    obtain rfl := Option.some.inj hvs
    exact hws
  | cons v vs ih =>
    rw [serializeAll] at hvs
    split at hvs
    · rename_i b r hb hr
      obtain rfl := Option.some.inj hvs
      rw [List.cons_append, serializeAll, hb, ih hr, List.append_assoc]
    · cases hvs

/-- A row has bytes, as many as its values. -/
theorem Row.exists_serializeAll {columns : List Column} {values : List Value}
    (h : Row columns values) :
    ∃ data, Tuple.serializeAll values = some data ∧ data.length = sizeSum values := by
  induction h with
  | nil => exact ⟨[], rfl, rfl⟩
  | @cons c v columns values hv _ ih =>
    obtain ⟨rest, hrest, hlen⟩ := ih
    obtain ⟨bytes, hbytes⟩ := Value.exists_serialize hv.1
    refine ⟨bytes ++ rest, by rw [Tuple.serializeAll, hbytes, hrest], ?_⟩
    simp [sizeSum, Value.size, hbytes, hlen]

/-- **What is read in a column**: the bytes from its offset on, as a value of its
type. -/
theorem getValue_ofBytes_eq {schema : Schema} {i : Nat} {c : Column}
    (hc : schema.given[i]? = some c) (rid : RID) (data : List UInt8) :
    (Tuple.ofBytes rid data).getValue schema i =
      Value.deserializeFrom (data.drop (Schema.widthSum (schema.given.take i))) c.type := by
  have hcol := schema.getColumn_eq i
  rw [hc, Option.map_some] at hcol
  simp [Tuple.getValue, Tuple.ofBytes, hcol]

/-- **A column is read back** if the values before it take the widths of their
columns. -/
theorem getValue_of_aligned {schema : Schema} {values : List Value}
    (hrow : Row schema.given values) (hstr : ∀ s, .varchar s ∈ values → s.length < 2 ^ 32)
    {data : List UInt8} (hdata : Tuple.serializeAll values = some data) (rid : RID) {i : Nat}
    (hi : i < values.length)
    (haligned : sizeSum (values.take i) = Schema.widthSum (schema.given.take i)) :
    (Tuple.ofBytes rid data).getValue schema i = some values[i] := by
  have hi' : i < schema.given.length := hrow.length_eq ▸ hi
  obtain ⟨v, hv, hnull, htype⟩ := hrow.getElem (List.getElem?_eq_getElem hi')
  obtain rfl : values[i] = v := Option.some.inj ((List.getElem?_eq_getElem hi).symm.trans hv)
  -- the bytes of the values before, of this one, and of those after it
  obtain ⟨before, hbefore, hlen⟩ := Row.exists_serializeAll (List.forall₂_take i hrow)
  obtain ⟨after, hafter, -⟩ := Row.exists_serializeAll (List.forall₂_drop (i + 1) hrow)
  obtain ⟨bytes, hbytes⟩ := Value.exists_serialize hnull
  have hrest : Tuple.serializeAll (values.drop i) = some (bytes ++ after) := by
    rw [List.drop_eq_getElem_cons hi, Tuple.serializeAll, hbytes, hafter]
  have hsplit := Tuple.serializeAll_append hbefore hrest
  rw [List.take_append_drop, hdata] at hsplit
  obtain rfl := Option.some.inj hsplit
  rw [getValue_ofBytes_eq (List.getElem?_eq_getElem hi'), ← haligned, ← hlen, List.drop_left,
    ← htype]
  exact Value.deserializeFrom_serialize hnull
    (fun s hs => hstr s (hs ▸ List.getElem_mem hi)) hbytes after

/-- The value of an INTEGER or BOOLEAN column takes the width of the column. -/
theorem size_of_fixed {c : Column} {v : Value} (hfixed : c.type = .integer ∨ c.type = .boolean)
    (hnull : v.isNull = false) (htype : v.getTypeId = c.type) : v.size = c.width := by
  cases v with
  | null => cases hnull
  | integer i =>
    simp [Value.size, Value.serialize, Column.width, Column.isInlined, Column.getFixedLength,
      ← htype, Value.getTypeId, Column.getFixedLengthFor]
  | boolean b =>
    simp [Value.size, Value.serialize, Column.width, Column.isInlined, Column.getFixedLength,
      ← htype, Value.getTypeId, Column.getFixedLengthFor]
  | float bits => rcases hfixed with h | h <;> simp [Value.getTypeId, h] at htype
  | varchar s => rcases hfixed with h | h <;> simp [Value.getTypeId, h] at htype

/-- Sizes and widths agree over a row if they agree column by column. -/
theorem Row.sizeSum_eq {columns : List Column} {values : List Value}
    (hrow : Row columns values) (hsize : ∀ (i : Nat) (c : Column) (v : Value),
      columns[i]? = some c → values[i]? = some v → v.isNull = false → v.getTypeId = c.type →
      v.size = c.width) :
    sizeSum values = Schema.widthSum columns := by
  induction hrow with
  | nil => rfl
  | @cons c v columns values hv _ ih =>
    have hhead := hsize 0 c v rfl rfl hv.1 hv.2
    have htail := ih fun i c' v' hc' hv' => hsize (i + 1) c' v' hc' hv'
    simp only [sizeSum, Schema.widthSum, List.map_cons, List.sum_cons] at htail ⊢
    rw [hhead, htail]

/-- **A stored row is read back** through the schema. -/
theorem getValue_ofBytes {schema : Schema} {values : List Value}
    (hfixed : FixedColumns schema.given) (hrow : Row schema.given values) {data : List UInt8}
    (hdata : Tuple.serializeAll values = some data) (rid : RID) {i : Nat}
    (hi : i < values.length) :
    (Tuple.ofBytes rid data).getValue schema i = some values[i] := by
  refine getValue_of_aligned hrow (fun s hs => ?_) hdata rid hi ?_
  · -- there are no strings in such a row
    obtain ⟨c, hc, htype⟩ := hrow.exists_varchar hs
    rcases hfixed c hc with h | h <;> cases h.symm.trans htype
  · refine Row.sizeSum_eq (List.forall₂_take i hrow) fun j c v hc _ hnull htype => ?_
    exact size_of_fixed (hfixed c (List.mem_of_mem_take (List.mem_of_getElem? hc))) hnull htype

end OneBase
