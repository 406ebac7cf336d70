import Mathlib.Algebra.Order.BigOperators.Group.List
import Mathlib.Algebra.Order.Group.Nat
import OneBase.Execution.Scan

/-!
# Where the reader and the writer of a tuple disagree

The writer puts the bytes of the values one after the other; the reader takes the
offsets of the schema. These agree for INTEGER and BOOLEAN columns only: a FLOAT
takes 4 bytes and the schema counts 8, and a string takes 4 bytes and its length
where the schema counts 4. So a column after one of these may be read at the wrong
place.

- `readsBack_iff`: with FLOAT columns, a row is read back exactly when no column but
  the last is FLOAT.
- `scansBack_iff`: with VARCHAR columns, all rows are read back exactly when no column
  but the last is VARCHAR, or no row with a string of positive length fits in a page.
-/

namespace OneBase

open Cpp PageStore

/-- A column of a list but the last. -/
theorem mem_dropLast_iff {columns : List Column} {c : Column} :
    c ∈ columns.dropLast ↔ ∃ i, i + 1 < columns.length ∧ columns[i]? = some c := by
  rw [List.mem_iff_getElem?]
  refine exists_congr fun i => ?_
  rw [List.getElem?_dropLast]
  by_cases hi : i < columns.length - 1
  · have hi' : i + 1 < columns.length := by omega
    simp only [hi, if_true, hi', true_and]
  · have hi' : ¬ i + 1 < columns.length := by omega
    simp only [hi, if_false, hi', false_and]
    simp

theorem deserializeFrom_nil (type : TypeId) : Value.deserializeFrom [] type = none := by
  cases type with
  | varchar => simp [Value.deserializeFrom, natOf]
  | _ => rfl

/-! ## FLOAT columns -/

/-- The columns are BOOLEAN, INTEGER or FLOAT. -/
def InlinedColumns (columns : List Column) : Prop :=
  ∀ c ∈ columns, c.type = .boolean ∨ c.type = .integer ∨ c.type = .float

/-- A FLOAT takes 4 bytes less than the width of its column. -/
theorem size_of_inlined {c : Column} {v : Value}
    (hinlined : c.type = .boolean ∨ c.type = .integer ∨ c.type = .float)
    (hnull : v.isNull = false) (htype : v.getTypeId = c.type) :
    v.getSerializedSize = some v.size ∧ v.size ≤ 4 ∧
      c.width = v.size + if c.type = .float then 4 else 0 := by
  cases v with
  | null => cases hnull
  | integer i =>
    simp [Value.getSerializedSize, Value.size, Value.serialize, Column.width, Column.isInlined,
      Column.getFixedLength, ← htype, Value.getTypeId, Column.getFixedLengthFor]
  | boolean b =>
    simp [Value.getSerializedSize, Value.size, Value.serialize, Column.width, Column.isInlined,
      Column.getFixedLength, ← htype, Value.getTypeId, Column.getFixedLengthFor]
  | float bits =>
    simp [Value.getSerializedSize, Value.size, Value.serialize, Column.width, Column.isInlined,
      Column.getFixedLength, ← htype, Value.getTypeId, Column.getFixedLengthFor]
  | varchar s => rcases hinlined with h | h | h <;> simp [Value.getTypeId, h] at htype

/-- The widths are the sizes, with 4 more for each FLOAT. -/
theorem widthSum_eq {columns : List Column} {values : List Value}
    (hinlined : InlinedColumns columns) (hrow : Row columns values) :
    Schema.widthSum columns =
      sizeSum values + 4 * columns.countP fun c => decide (c.type = .float) := by
  induction hrow with
  | nil => rfl
  | @cons c v columns values hv _ ih =>
    obtain ⟨-, -, hwidth⟩ := size_of_inlined (hinlined c List.mem_cons_self) hv.1 hv.2
    have hrest := ih fun c' hc' => hinlined c' (List.mem_cons_of_mem _ hc')
    simp only [Schema.widthSum, sizeSum, List.map_cons, List.sum_cons, List.countP_cons] at hrest ⊢
    rw [hrest, hwidth]
    by_cases hfloat : c.type = .float
    · simp only [hfloat, if_true, decide_true]
      omega
    · simp only [hfloat, if_false, decide_false, Bool.false_eq_true]
      omega

/-- Every column of the stored row is read back. -/
def ReadsBack (schema : Schema) (values : List Value) : Prop :=
  ∃ t, Tuple.ofValues values = some t ∧
    ∀ i (hi : i < values.length), (Tuple.ofBytes {} t.data).getValue schema i = some values[i]

/-- The offset of every column is the sum of the sizes of the values before it. -/
def OffsetsMatch (schema : Schema) (values : List Value) : Prop :=
  ∀ i c, schema.getColumn i = some c →
    c.offset = ((values.take i).map fun v => v.getSerializedSize.getD 0).sum

section Float

variable {schema : Schema} {values : List Value}

theorem InlinedColumns.take {columns : List Column} (h : InlinedColumns columns) (i : Nat) :
    InlinedColumns (columns.take i) := fun c hc => h c (List.mem_of_mem_take hc)

/-- The sizes that the code reports are the numbers of bytes. -/
theorem sum_getSerializedSize {columns : List Column} (hinlined : InlinedColumns columns)
    (hrow : Row columns values) :
    (values.map fun v => v.getSerializedSize.getD 0).sum = sizeSum values := by
  rw [sizeSum]
  congr 1
  refine List.map_congr_left fun v hv => ?_
  obtain ⟨i, hi, rfl⟩ := List.getElem_of_mem hv
  have hi' : i < columns.length := hrow.length_eq ▸ hi
  obtain ⟨v', hv', hnull, htype⟩ := hrow.getElem (List.getElem?_eq_getElem hi')
  obtain rfl : values[i] = v' := Option.some.inj ((List.getElem?_eq_getElem hi).symm.trans hv')
  obtain ⟨hsize, -⟩ := size_of_inlined (hinlined _ (List.getElem_mem hi')) hnull htype
  rw [hsize, Option.getD_some]

/-- No FLOAT before column `i`: the values before it take the widths of their
columns. -/
theorem aligned_of_no_float (hinlined : InlinedColumns schema.given)
    (hrow : Row schema.given values) (hlast : ∀ c ∈ schema.given.dropLast, c.type ≠ .float)
    {i : Nat} (hi : i < values.length) :
    sizeSum (values.take i) = Schema.widthSum (schema.given.take i) := by
  have hnone : (schema.given.take i).countP (fun c => decide (c.type = .float)) = 0 := by
    refine List.countP_eq_zero.mpr fun c hc => ?_
    obtain ⟨j, hj, hget⟩ := List.getElem_of_mem hc
    rw [List.length_take] at hj
    rw [List.getElem_take] at hget
    have hlen := hrow.length_eq
    simpa using hlast c (mem_dropLast_iff.mpr
      ⟨j, by omega, List.getElem?_eq_some_iff.mpr ⟨by omega, hget⟩⟩)
  rw [widthSum_eq (hinlined.take i) (List.forall₂_take i hrow), hnone, Nat.mul_zero, Nat.add_zero]

/-- A FLOAT before the last column moves the offset of that column past the end. -/
theorem sizeSum_lt_of_float (hinlined : InlinedColumns schema.given)
    (hrow : Row schema.given values) {c : Column} (hc : c ∈ schema.given.dropLast)
    (hfloat : c.type = .float) :
    sizeSum (values.take (values.length - 1)) + 4 ≤
      Schema.widthSum (schema.given.take (values.length - 1)) := by
  obtain ⟨j, hj, hget⟩ := mem_dropLast_iff.mp hc
  have hlen := hrow.length_eq
  have hmem : c ∈ schema.given.take (values.length - 1) := by
    have htake : (schema.given.take (values.length - 1))[j]? = some c := by
      rw [List.getElem?_take, if_pos (by omega), hget]
    exact List.mem_of_getElem? htake
  have hpos : 0 < (schema.given.take (values.length - 1)).countP
      fun c => decide (c.type = .float) :=
    List.countP_pos_iff.mpr ⟨c, hmem, by simpa using hfloat⟩
  rw [widthSum_eq (hinlined.take _) (List.forall₂_take _ hrow)]
  omega

/-- **With FLOAT columns** a row is read back, and the offsets are the sums of the
sizes, exactly when no column but the last is FLOAT. -/
theorem readsBack_iff (hinlined : InlinedColumns schema.given) (hrow : Row schema.given values) :
    (ReadsBack schema values ↔ ∀ c ∈ schema.given.dropLast, c.type ≠ .float) ∧
      (OffsetsMatch schema values ↔ ∀ c ∈ schema.given.dropLast, c.type ≠ .float) := by
  have hlen := hrow.length_eq
  have hstr : ∀ s, Value.varchar s ∈ values → s.length < 2 ^ 32 := by
    intro s hs
    obtain ⟨c, hc, htype⟩ := hrow.exists_varchar hs
    rcases hinlined c hc with h | h | h <;> cases h.symm.trans htype
  obtain ⟨data, hdata, hsize⟩ := hrow.exists_serializeAll
  refine ⟨⟨?_, fun hlast => ?_⟩, ⟨?_, fun hlast => ?_⟩⟩
  · -- the last column after a FLOAT is read past the end
    rintro ⟨t, ht, hread⟩ c hc hfloat
    obtain ⟨data', hdata', rfl⟩ := Option.map_eq_some_iff.mp ht
    obtain rfl : data = data' := Option.some.inj (hdata.symm.trans hdata')
    have hpast := sizeSum_lt_of_float hinlined hrow hc hfloat
    obtain ⟨j, hj, -⟩ := mem_dropLast_iff.mp hc
    have hi : values.length - 1 < values.length := by omega
    have hi' : values.length - 1 < schema.given.length := by omega
    have hlast := hread _ hi
    rw [getValue_ofBytes_eq (List.getElem?_eq_getElem hi'), List.drop_eq_nil_of_le,
      deserializeFrom_nil] at hlast
    · cases hlast
    · obtain ⟨v, hv, hnull, htype⟩ := hrow.getElem (List.getElem?_eq_getElem hi')
      obtain ⟨-, hfour, -⟩ := size_of_inlined (hinlined _ (List.getElem_mem hi')) hnull htype
      have hsplit : sizeSum values = sizeSum (values.take (values.length - 1)) + v.size := by
        have hget := (List.getElem?_eq_some_iff.mp hv).2
        have htake : values = values.take (values.length - 1) ++ [v] := by
          have hone : values.length - 1 + 1 = values.length := by omega
          rw [← hget, List.take_append_getElem, hone, List.take_length]
        conv_lhs => rw [htake]
        simp [sizeSum]
      show data.length ≤ _
      omega
  · exact ⟨{ data, values }, by simp [Tuple.ofValues, hdata], fun i hi =>
      getValue_of_aligned hrow hstr hdata {} hi (aligned_of_no_float hinlined hrow hlast hi)⟩
  · intro hmatch c hc hfloat
    have hpast := sizeSum_lt_of_float hinlined hrow hc hfloat
    obtain ⟨j, hj, -⟩ := mem_dropLast_iff.mp hc
    have hi' : values.length - 1 < schema.given.length := by omega
    have hcol := schema.getColumn_eq (values.length - 1)
    rw [List.getElem?_eq_getElem hi', Option.map_some] at hcol
    have hoff := hmatch _ _ hcol
    rw [sum_getSerializedSize (hinlined.take _) (List.forall₂_take _ hrow)] at hoff
    simp only at hoff
    omega
  · intro i c hcol
    rw [Schema.getColumn_eq] at hcol
    obtain ⟨c', hc', rfl⟩ := Option.map_eq_some_iff.mp hcol
    have hi : i < values.length := hlen ▸ (List.getElem?_eq_some_iff.mp hc').1
    rw [sum_getSerializedSize (hinlined.take i) (List.forall₂_take i hrow)]
    exact (aligned_of_no_float hinlined hrow hlast hi).symm

end Float

/-- The columns of the example: a FLOAT in front of an INTEGER. -/
def floatFirst : Schema := ⟨[⟨"f", .float, 0, 0⟩, ⟨"i", .integer, 0, 0⟩]⟩

/-- The INTEGER behind a FLOAT is read past the end of the tuple. -/
theorem floatFirst_not_readsBack : Row floatFirst.given [.float 0, .integer 7] ∧
    ¬ ReadsBack floatFirst [.float 0, .integer 7] := by
  refine ⟨.cons ⟨rfl, rfl⟩ (.cons ⟨rfl, rfl⟩ .nil), ?_⟩
  rintro ⟨t, ht, hread⟩
  obtain rfl := Option.some.inj ht
  have hone := hread 1 (by decide)
  revert hone
  decide

/-- A FLOAT in the last column does no harm. -/
theorem readsBack_iff_float_last :
    ReadsBack ⟨[⟨"i", .integer, 0, 0⟩, ⟨"f", .float, 0, 0⟩]⟩ [.integer 7, .float 0] :=
  (readsBack_iff (by simp [InlinedColumns]) (.cons ⟨rfl, rfl⟩ (.cons ⟨rfl, rfl⟩ .nil))).1.mpr
    (by simp)

/-! ## VARCHAR columns -/

/-- The columns are BOOLEAN, INTEGER or VARCHAR. -/
def StringColumns (columns : List Column) : Prop :=
  ∀ c ∈ columns, c.type = .boolean ∨ c.type = .integer ∨ c.type = .varchar

/-- The length of the string of a value. -/
def Value.strLength : Value → Nat
  | .varchar s => s.length
  | _ => 0

/-- The length of all strings of some values. -/
def strSum (values : List Value) : Nat := (values.map Value.strLength).sum

theorem strSum_append (values rest : List Value) :
    strSum (values ++ rest) = strSum values + strSum rest := by
  simp only [strSum, List.map_append, List.sum_append]

/-- A string takes its length more than the width of its column. -/
theorem size_of_string {c : Column} {v : Value}
    (hstring : c.type = .boolean ∨ c.type = .integer ∨ c.type = .varchar)
    (hnull : v.isNull = false) (htype : v.getTypeId = c.type) :
    v.size = c.width + v.strLength := by
  cases v with
  | null => cases hnull
  | integer i =>
    simp [Value.size, Value.serialize, Column.width, Column.isInlined, Column.getFixedLength,
      ← htype, Value.getTypeId, Column.getFixedLengthFor, Value.strLength]
  | boolean b =>
    simp [Value.size, Value.serialize, Column.width, Column.isInlined, Column.getFixedLength,
      ← htype, Value.getTypeId, Column.getFixedLengthFor, Value.strLength]
  | float bits => rcases hstring with h | h | h <;> simp [Value.getTypeId, h] at htype
  | varchar s =>
    simp [Value.size, Value.serialize, Column.width, Column.isInlined, ← htype, Value.getTypeId,
      Value.strLength]

theorem sizeSum_eq_widthSum_add {columns : List Column} {values : List Value}
    (hstring : StringColumns columns) (hrow : Row columns values) :
    sizeSum values = Schema.widthSum columns + strSum values := by
  induction hrow with
  | nil => rfl
  | @cons c v columns values hv _ ih =>
    have hhead := size_of_string (hstring c List.mem_cons_self) hv.1 hv.2
    have hrest := ih fun c' hc' => hstring c' (List.mem_cons_of_mem _ hc')
    simp only [Schema.widthSum, sizeSum, strSum, List.map_cons, List.sum_cons] at hrest ⊢
    omega

/-- Inserting the row into the heap and scanning it gives its values back: the scan
gets to the RID, and the row that it returns there is the inserted one. -/
def ScansBack (table : TableInfo) (s : PageStore TablePage) (values : List Value) : Prop :=
  ∃ tuple rid s' rids row cursor, Tuple.ofValues values = some tuple ∧
    table.table.insertTuple s tuple.data = some (some rid, s') ∧
    table.table.walk (TableHeap.tupleFuel s') s' = some (rids, s') ∧ rid ∈ rids ∧
    ScanExecutor.next ⟨table, none, .seqScan rid⟩ s' = some (some (row, rid), cursor, s') ∧
    row.values = values

/-- The row can be inserted into a page. -/
def FitsPage (values : List Value) : Prop :=
  ∃ tuple, Tuple.ofValues values = some tuple ∧ tuple.data.length ≤ 4076

/-- What a scan makes of the bytes of a row has the values of the row if they are
read back. -/
theorem rebuild_values_iff {schema : Schema} {values : List Value} {data : List UInt8}
    (hdata : Tuple.serializeAll values = some data) (hlen : values.length = schema.getColumnCount)
    (rid : RID) :
    (∃ row, ScanExecutor.rebuild schema rid data = some row ∧ row.values = values) ↔
      ReadsBack schema values := by
  constructor
  · rintro ⟨row, hrow, rfl⟩
    refine ⟨{ data, values := row.values }, by simp [Tuple.ofValues, hdata], fun i hi => ?_⟩
    rw [ScanExecutor.rebuild] at hrow
    split at hrow
    · cases hrow
    · rename_i values' hvalues'
      obtain ⟨data', -, rfl⟩ := Option.map_eq_some_iff.mp hrow
      obtain ⟨-, hget⟩ := Tuple.getElem_getValuesFrom hvalues'
      have hread := hget i (hlen ▸ hi)
      rw [Nat.zero_add, List.getElem?_eq_getElem hi] at hread
      exact hread.symm
  · rintro ⟨t, ht, hread⟩
    obtain ⟨data', hdata', rfl⟩ := Option.map_eq_some_iff.mp ht
    obtain rfl : data = data' := Option.some.inj (hdata.symm.trans hdata')
    have hvalues : (Tuple.ofBytes rid data).getValues schema = some values := by
      refine Tuple.getValuesFrom_eq hlen fun j hj => ?_
      rw [Nat.zero_add]
      exact hread j hj
    exact ⟨_, by rw [ScanExecutor.rebuild, hvalues]; exact ht, rfl⟩

/-- **Scanning an inserted row** gives its values back if they are read back from its
bytes. -/
theorem scansBack_iff_readsBack {table : TableInfo} {s : PageStore TablePage} {chain : HeapChain}
    (hrep : HeapRep table.table s chain) (hok : s.StoreOk) (hid : s.nextPageId < 2 ^ 31)
    {values : List Value} (hrow : Row table.schema.given values) (hfits : FitsPage values)
    (hpos : 0 < sizeSum values) :
    ScansBack table s values ↔ ReadsBack table.schema values := by
  obtain ⟨tuple, htuple, hle⟩ := hfits
  obtain ⟨data, hdata, hsize⟩ := hrow.exists_serializeAll
  obtain ⟨data', hdata', rfl⟩ := Option.map_eq_some_iff.mp htuple
  obtain rfl : data = data' := Option.some.inj (hdata.symm.trans hdata')
  have hcount : values.length = table.schema.getColumnCount := by
    rw [Schema.getColumnCount_eq, hrow.length_eq]
  -- the tuple is live at its RID after the insertion
  obtain ⟨rid, s', chain', hins, hadds, hrep', -, -⟩ := hrep.insertTuple hok hid hle
  have hlive : chain'.tupleAt rid = some data := by
    have hne : data ≠ [] := List.length_pos_iff.mp (hsize ▸ hpos)
    rw [hadds.tupleAt hrep.nodup hrep.fresh_notin, if_pos rfl]
    simp [hne]
  have hmem : rid ∈ chain'.liveRids :=
    (HeapChain.mem_liveRids hrep'.nodup rid).mpr (by simp [hlive])
  obtain ⟨front, back, hsplit⟩ := List.append_of_mem hmem
  have hpending : Pending chain' (ScanExecutor.mk table none (.seqScan rid)).cursor
      (rid :: back) := .seqScan hsplit
  -- without a predicate the scan returns the tuple it is at
  obtain ⟨cursor, -, hnext⟩ := ScanExecutor.next_eq hrep' hpending
  have hscan : ScanExecutor.next ⟨table, none, .seqScan rid⟩ s' =
      (ScanExecutor.rebuild table.schema rid data).map fun row =>
        (some (row, rid), cursor back, s') := by
    rw [hnext, select, hlive, Option.getD_some]
    cases ScanExecutor.rebuild table.schema rid data with
    | none => rfl
    | some row => rfl
  rw [← rebuild_values_iff hdata hcount rid]
  constructor
  · rintro ⟨tuple', rid', s'', rids, row, cursor', htuple', hins', -, -, hnext', hvalues⟩
    obtain rfl := Option.some.inj (htuple.symm.trans htuple')
    rw [hins] at hins'
    obtain ⟨rfl, rfl⟩ : rid = rid' ∧ s' = s'' := by simpa using hins'
    rw [hscan] at hnext'
    obtain ⟨row', hrow', heq⟩ := Option.map_eq_some_iff.mp hnext'
    obtain ⟨rfl, -⟩ : row' = row ∧ cursor back = cursor' := by simpa using heq
    exact ⟨row', hrow', hvalues⟩
  · rintro ⟨row, hrow', hvalues⟩
    exact ⟨_, rid, s', chain'.liveRids, row, cursor back, htuple, hins,
      hrep'.walk hrep'.length_liveRids_lt, hmem, by rw [hscan, hrow']; rfl, hvalues⟩

/-! ### A row that is not read back -/

/-- A value whose bytes are all zero. -/
def zeroValue : TypeId → Value
  | .boolean => .boolean false
  | .integer => .integer 0
  | .float => .float 0
  | .varchar => .varchar []
  | .invalid => .null .invalid

theorem zeroValue_spec {type : TypeId}
    (htype : type = .boolean ∨ type = .integer ∨ type = .varchar) :
    (zeroValue type).isNull = false ∧ (zeroValue type).getTypeId = type ∧
      (zeroValue type).strLength = 0 := by
  rcases htype with rfl | rfl | rfl <;> exact ⟨rfl, rfl, rfl⟩

/-- A row of zeros. -/
theorem zero_row {columns : List Column} (hstring : StringColumns columns) :
    Row columns (columns.map fun c => zeroValue c.type) ∧
      strSum (columns.map fun c => zeroValue c.type) = 0 := by
  induction columns with
  | nil => exact ⟨.nil, rfl⟩
  | cons c columns ih =>
    obtain ⟨hrow, hsum⟩ := ih fun c' hc' => hstring c' (List.mem_cons_of_mem _ hc')
    obtain ⟨hnull, htype, hlen⟩ := zeroValue_spec (hstring c List.mem_cons_self)
    refine ⟨.cons ⟨hnull, htype⟩ hrow, ?_⟩
    simp only [strSum, List.map_cons, List.sum_cons] at hsum ⊢
    rw [hlen, hsum]

/-- The zero behind a string of one byte is read one byte too early. -/
theorem deserializeFrom_shifted {type : TypeId}
    (htype : type = .boolean ∨ type = .integer ∨ type = .varchar) {bytes : List UInt8}
    (hbytes : (zeroValue type).serialize = some bytes) (rest : List UInt8) :
    Value.deserializeFrom ([1] ++ (bytes ++ rest)) type ≠ some (zeroValue type) := by
  rcases htype with rfl | rfl | rfl
  · obtain rfl := Option.some.inj hbytes
    simp [Value.deserializeFrom, zeroValue]
  · obtain rfl : bytes = [0, 0, 0, 0] := (Option.some.inj hbytes).symm
    have hlong : ¬ ([1] ++ ([0, 0, 0, 0] ++ rest) : List UInt8).length < 4 := by simp
    rw [Value.deserializeFrom, if_neg hlong]
    intro h
    have hone : (UInt32.ofNat (natOf [1, 0, 0, 0])).toInt32 = 0 :=
      Value.integer.inj (Option.some.inj h)
    revert hone
    decide
  · obtain rfl := Option.some.inj hbytes
    simp [Value.deserializeFrom, zeroValue, bytesOf, natOf]

/-- **A string of one byte and zeros elsewhere** is not read back behind the string. -/
theorem exists_not_readsBack {schema : Schema} (hstring : StringColumns schema.given)
    {c : Column} (hc : c ∈ schema.given.dropLast) (hvarchar : c.type = .varchar) :
    ∃ values, Row schema.given values ∧ sizeSum values = schema.getTupleLength + 1 ∧
      ¬ ReadsBack schema values := by
  obtain ⟨i, hi, hget⟩ := mem_dropLast_iff.mp hc
  obtain ⟨hi', hget⟩ := List.getElem?_eq_some_iff.mp hget
  -- the columns before the string, the one behind it, and those after that
  obtain ⟨cs, d, ds, hsplit, hlen⟩ : ∃ cs d ds, schema.given = cs ++ c :: d :: ds ∧
      cs.length = i := by
    refine ⟨schema.given.take i, schema.given[i + 1], schema.given.drop (i + 2), ?_,
      List.length_take_of_le (Nat.le_of_lt hi')⟩
    rw [← hget, ← List.drop_eq_getElem_cons hi, ← List.drop_eq_getElem_cons hi',
      List.take_append_drop]
  have hcs : StringColumns cs := fun c' hc' => hstring c' (by simp [hsplit, hc'])
  have hd : d.type = .boolean ∨ d.type = .integer ∨ d.type = .varchar :=
    hstring d (by simp [hsplit])
  have hds : StringColumns (d :: ds) := by
    intro c' hc'
    refine hstring c' ?_
    rw [hsplit]
    exact List.mem_append_right _ (List.mem_cons_of_mem _ hc')
  obtain ⟨hrowcs, hstrcs⟩ := zero_row hcs
  obtain ⟨hrowds, hstrds⟩ := zero_row hds
  have hrow : Row schema.given (cs.map (fun c => zeroValue c.type) ++
      .varchar [1] :: (d :: ds).map fun c => zeroValue c.type) := by
    rw [hsplit]
    exact List.rel_append hrowcs (.cons ⟨rfl, hvarchar.symm⟩ hrowds)
  refine ⟨_, hrow, ?_, ?_⟩
  · have hone : strSum (cs.map (fun c => zeroValue c.type) ++
        .varchar [1] :: (d :: ds).map fun c => zeroValue c.type) = 1 := by
      have hstring : strSum (.varchar [1] :: (d :: ds).map fun c => zeroValue c.type) = 1 +
          strSum ((d :: ds).map fun c => zeroValue c.type) := List.sum_cons
      rw [strSum_append, hstring, hstrcs, hstrds]
    rw [sizeSum_eq_widthSum_add hstring hrow, hone, Schema.getTupleLength]
  · rintro ⟨t, ht, hread⟩
    obtain ⟨data, hdata, rfl⟩ := Option.map_eq_some_iff.mp ht
    obtain ⟨before, hbefore, hbeforeLen⟩ := hrowcs.exists_serializeAll
    obtain ⟨after, hafter, -⟩ := Row.exists_serializeAll (List.forall₂_cons.mp hrowds).2
    obtain ⟨bytes, hbytes⟩ := Value.exists_serialize (zeroValue_spec hd).1
    have hdata' := Tuple.serializeAll_append hbefore (show Tuple.serializeAll
      (.varchar [1] :: (d :: ds).map fun c => zeroValue c.type) =
        some ((bytesOf 1 4 ++ [1]) ++ (bytes ++ after)) by
      simp only [List.map_cons, Tuple.serializeAll, hbytes, hafter]
      rfl)
    obtain rfl := Option.some.inj (hdata.symm.trans hdata')
    have hwidth : Schema.widthSum cs = before.length := by
      rw [hbeforeLen, sizeSum_eq_widthSum_add hcs hrowcs, hstrcs, Nat.add_zero]
    have hlt : i + 1 < (cs.map (fun c => zeroValue c.type) ++
        Value.varchar [1] :: (d :: ds).map fun c => zeroValue c.type).length := by
      simp [hlen]
    have hbehind := hread (i + 1) hlt
    have hdi : schema.given[i + 1]? = some d := by
      rw [hsplit, ← hlen]
      simp
    have htake : Schema.widthSum (schema.given.take (i + 1)) = before.length + 4 := by
      have : schema.given.take (i + 1) = cs ++ [c] := by
        rw [hsplit, ← hlen, List.take_append, List.take_of_length_le (Nat.le_succ _)]
        simp
      rw [this, ← hwidth]
      simp [Schema.widthSum, Column.width, Column.isInlined, hvarchar]
    have hdrop : (before ++ ((bytesOf 1 4 ++ [1]) ++ (bytes ++ after))).drop (before.length + 4) =
        [1] ++ (bytes ++ after) := by
      rw [← List.drop_drop, List.drop_left]
      rfl
    have hvalue : (cs.map (fun c => zeroValue c.type) ++
        Value.varchar [1] :: (d :: ds).map fun c => zeroValue c.type)[i + 1] =
        zeroValue d.type := by
      simp [List.getElem_append_right, hlen]
    rw [getValue_ofBytes_eq hdi, htake, hvalue] at hbehind
    simp only at hbehind
    rw [hdrop] at hbehind
    exact deserializeFrom_shifted hd hbytes after hbehind

/-- The strings in front of a column are among those of the row. -/
theorem strSum_take_le (values : List Value) (i : Nat) :
    strSum (values.take i) ≤ strSum values := by
  have hsplit := strSum_append (values.take i) (values.drop i)
  rw [List.take_append_drop] at hsplit
  omega

/-- Where only the last column is a string, there is none in front of a column. -/
theorem Row.strSum_take_of_last {columns : List Column} {values : List Value}
    (hrow : Row columns values) (hlast : ∀ c ∈ columns.dropLast, c.type ≠ .varchar) {i : Nat}
    (hi : i < values.length) : strSum (values.take i) = 0 := by
  refine List.sum_eq_zero_iff_forall_eq_nat.mpr fun n hn => ?_
  obtain ⟨v, hv, rfl⟩ := List.mem_map.mp hn
  obtain ⟨j, hj, hget⟩ := List.getElem_of_mem hv
  rw [List.length_take] at hj
  rw [List.getElem_take] at hget
  have hlen := hrow.length_eq
  have hj' : j < columns.length := by omega
  obtain ⟨v', hv', -, htype⟩ := hrow.getElem (List.getElem?_eq_getElem hj')
  have hvv : values[j]? = some v := List.getElem?_eq_some_iff.mpr ⟨by omega, hget⟩
  obtain rfl := Option.some.inj (hvv.symm.trans hv')
  have hne := hlast _ (mem_dropLast_iff.mpr ⟨j, by omega, List.getElem?_eq_getElem hj'⟩)
  rw [← htype] at hne
  cases v with
  | varchar str => exact absurd rfl hne
  | _ => rfl

/-- **With VARCHAR columns** every row is scanned back exactly when no column but the
last is VARCHAR, or the widths of the columns leave no room for a string. -/
theorem scansBack_iff {table : TableInfo} {s : PageStore TablePage} {chain : HeapChain}
    (hrep : HeapRep table.table s chain) (hok : s.StoreOk) (hid : s.nextPageId < 2 ^ 31)
    (hstring : StringColumns table.schema.given)
    (hvarchar : ∃ c ∈ table.schema.given, c.type = .varchar) :
    (∀ values, Row table.schema.given values → FitsPage values → ScansBack table s values) ↔
      (∀ c ∈ table.schema.given.dropLast, c.type ≠ .varchar) ∨
        4076 ≤ table.schema.getTupleLength := by
  have hwidth : 0 < Schema.widthSum table.schema.given := by
    obtain ⟨c, hc, htype⟩ := hvarchar
    have hpos : 0 < c.width := by simp [Column.width, Column.isInlined, htype]
    exact Nat.lt_of_lt_of_le hpos (List.single_le_sum (by simp) _ (List.mem_map_of_mem hc))
  have hreads : ∀ {values}, Row table.schema.given values → FitsPage values →
      (ScansBack table s values ↔ ReadsBack table.schema values) := by
    intro values hrow hfits
    refine scansBack_iff_readsBack hrep hok hid hrow hfits ?_
    rw [sizeSum_eq_widthSum_add hstring hrow]
    omega
  constructor
  · intro hall
    by_contra hcond
    rw [not_or] at hcond
    obtain ⟨hlast, hroom⟩ := hcond
    obtain ⟨c, hc⟩ := not_forall.mp hlast
    obtain ⟨hc, htype⟩ := Classical.not_imp.mp hc
    obtain ⟨values, hrow, hsize, hnot⟩ :=
      exists_not_readsBack hstring hc (Classical.not_not.mp htype)
    have hfits : FitsPage values := by
      obtain ⟨data, hdata, hlen⟩ := hrow.exists_serializeAll
      refine ⟨{ data, values }, by simp [Tuple.ofValues, hdata], ?_⟩
      show data.length ≤ 4076
      omega
    exact hnot ((hreads hrow hfits).mp (hall values hrow hfits))
  · intro hcond values hrow hfits
    rw [hreads hrow hfits]
    obtain ⟨tuple, htuple, hle⟩ := hfits
    obtain ⟨data, hdata, hlen⟩ := hrow.exists_serializeAll
    obtain ⟨data', hdata', rfl⟩ := Option.map_eq_some_iff.mp htuple
    obtain rfl : data = data' := Option.some.inj (hdata.symm.trans hdata')
    replace hle : data.length ≤ 4076 := hle
    have hsizes := sizeSum_eq_widthSum_add hstring hrow
    have hstr : ∀ str, Value.varchar str ∈ values → str.length < 2 ^ 32 := by
      intro str hmem
      have hle' : str.length ≤ strSum values :=
        List.single_le_sum (by simp) _ (List.mem_map_of_mem hmem)
      omega
    refine ⟨_, htuple, fun i hi => getValue_of_aligned hrow hstr hdata {} hi ?_⟩
    -- before column `i` there is no string, or only empty ones
    have hfront := sizeSum_eq_widthSum_add
      (fun c hc => hstring c (List.mem_of_mem_take hc)) (List.forall₂_take i hrow)
    have hnone : strSum (values.take i) = 0 := by
      rcases hcond with hlast | hroom
      · exact hrow.strSum_take_of_last hlast hi
      · rw [Schema.getTupleLength] at hroom
        have hle' := strSum_take_le values i
        omega
    rw [hfront, hnone, Nat.add_zero]

/-- A table with a VARCHAR in front of an INTEGER. -/
def stringFirst : TableInfo :=
  ⟨⟨[⟨"s", .varchar, 0, 0⟩, ⟨"i", .integer, 0, 0⟩]⟩, "t", (TableHeap.create emptyStore).1, 1⟩

/-- The INTEGER behind a string of one byte is read from the string on. -/
theorem stringFirst_not_scansBack :
    Row stringFirst.schema.given [.varchar [97], .integer 7] ∧
      FitsPage [.varchar [97], .integer 7] ∧
      ¬ ScansBack stringFirst (TableHeap.create emptyStore).2 [.varchar [97], .integer 7] := by
  have hrow : Row stringFirst.schema.given [.varchar [97], .integer 7] :=
    .cons ⟨rfl, rfl⟩ (.cons ⟨rfl, rfl⟩ .nil)
  have hfits : FitsPage [.varchar [97], .integer 7] := ⟨_, rfl, by decide⟩
  obtain ⟨hrep, hok, -, -, -⟩ := TableHeap.create_spec emptyStore_ok
  have hrep' : HeapRep stringFirst.table (TableHeap.create emptyStore).2 _ := hrep
  refine ⟨hrow, hfits, fun hscan => ?_⟩
  obtain ⟨t, ht, hread⟩ :=
    (scansBack_iff_readsBack hrep' hok (by decide) hrow hfits (by decide)).mp hscan
  obtain rfl := Option.some.inj ht
  have hone := hread 1 (by decide)
  revert hone
  decide

/-- A table with a VARCHAR behind an INTEGER. -/
def stringLast : TableInfo :=
  ⟨⟨[⟨"i", .integer, 0, 0⟩, ⟨"s", .varchar, 0, 0⟩]⟩, "t", (TableHeap.create emptyStore).1, 1⟩

/-- Rows with a VARCHAR in the last column are scanned back. -/
theorem scansBack_iff_string_last :
    ScansBack stringLast (TableHeap.create emptyStore).2 [.integer 7, .varchar [97]] := by
  obtain ⟨hrep, hok, -, -, -⟩ := TableHeap.create_spec emptyStore_ok
  have hrep' : HeapRep stringLast.table (TableHeap.create emptyStore).2 _ := hrep
  have hiff := scansBack_iff hrep' hok (by decide) (by simp [StringColumns, stringLast])
    (by simp [stringLast])
  exact hiff.mpr (.inl (by simp [stringLast])) _ (.cons ⟨rfl, rfl⟩ (.cons ⟨rfl, rfl⟩ .nil))
    ⟨_, rfl, by decide⟩

end OneBase
