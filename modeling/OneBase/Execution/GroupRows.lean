import OneBase.Execution.GroupKeys

/-!
# The output of an aggregation, group by group (`aggregation_executor.cpp`)

With a GROUP BY clause the executor outputs one row for each key that occurs. The row
depends on the key and on the rows with that key.

- `groupTuples`: the rows of all keys.
- `yields_iff`, `perm_groupTuples`: what the executor outputs, in whatever order its map has.
-/

namespace OneBase

open Cpp

namespace AggregationPlan

section

variable (plan : AggregationPlan) (schema : Schema) (rows : List Tuple)

/-- The keys that occur. -/
def groupKeys : List (List UInt8) := (rows.filterMap (plan.groupKey schema)).dedup

/-- The states of the rows with a key. -/
def statesOf (key : List UInt8) : List AggregateState :=
  (foldStates schema plan.aggregates plan.newStates
    (rowsWith (plan.groupKey schema) rows key)).getD plan.newStates

/-- The row of a key. -/
def groupTuple (key : List UInt8) : Tuple :=
  (Tuple.ofValues (plan.entryValues ⟨key, plan.statesOf schema rows key⟩)).getD {}

/-- **The rows of all keys.** -/
def groupTuples : List Tuple := (plan.groupKeys schema rows).map (plan.groupTuple schema rows)

end

variable {plan : AggregationPlan} {schema : Schema} {rows : List Tuple} {groups : AggMap}

theorem mem_groupKeys {key : List UInt8} :
    key ∈ plan.groupKeys schema rows ↔ ∃ r ∈ rows, plan.groupKey schema r = some key := by
  rw [groupKeys, List.mem_dedup, List.mem_filterMap]

/-- The map has the states of the rows. -/
theorem lookup_eq_statesOf (hgroups : rows.foldlM (plan.aggregateRow schema) ∅ = some groups)
    (key : List UInt8) :
    (groups.lookup key).getD plan.newStates = plan.statesOf schema rows key := by
  have hfold := (groupRows_lookup hgroups key).1
  rw [AList.lookup_empty, Option.getD_none] at hfold
  rw [statesOf, foldStates, hfold, Option.getD_some]

/-- The values of the output are those of the keys. -/
theorem outputValues_perm (hgroups : rows.foldlM (plan.aggregateRow schema) ∅ = some groups)
    (hne : plan.groupBys ≠ []) (order : MapOrder (List UInt8) (List AggregateState)) :
    (plan.outputValues order (!rows.isEmpty) groups).Perm
      ((plan.groupKeys schema rows).map fun key =>
        plan.entryValues ⟨key, plan.statesOf schema rows key⟩) := by
  have hkeys : ∀ key, key ∈ plan.groupKeys schema rows ↔ key ∈ groups := by
    intro key
    rw [mem_groupKeys, (groupRows_lookup hgroups key).2]
    exact (or_iff_right (AList.notMem_empty key)).symm
  have hentries := entries_perm order (List.nodup_dedup _) hkeys plan.newStates
  rw [outputValues, if_neg (by simp [hne])]
  refine (hentries.map plan.entryValues).trans (.of_eq ?_)
  rw [List.map_map]
  exact List.map_congr_left fun key _ => by rw [Function.comp, lookup_eq_statesOf hgroups]

/-- The tuples of the output values. -/
def outputTuples (plan : AggregationPlan) (order : MapOrder (List UInt8) (List AggregateState))
    (hasInput : Bool) (groups : AggMap) : List Tuple :=
  (plan.outputValues order hasInput groups).map fun values => (Tuple.ofValues values).getD {}

/-- **What the executor outputs.** -/
theorem yields_iff {σ : Type} {order : MapOrder (List UInt8) (List AggregateState)}
    {child : Executor σ} {out : List Tuple} (hchild : child.Yields rows) {fuel : Nat}
    (hfuel : rows.length < fuel) (st : Materialized σ) :
    (plan.executor order child fuel).Yields out ↔
      ∃ groups, rows.foldlM (plan.aggregateRow child.outputSchema) ∅ = some groups ∧
        out = plan.outputTuples order (!rows.isEmpty) groups := by
  have honly : ∀ {out : List Tuple}, (plan.executor order child fuel).Yields out →
      ∃ groups, rows.foldlM (plan.aggregateRow child.outputSchema) ∅ = some groups ∧
        out = plan.outputTuples order (!rows.isEmpty) groups := by
    intro out hout
    have heq := Materialized.eq_of_yields hchild hfuel st hout
    rw [foldlM_flag (plan.aggregateRow child.outputSchema)] at heq
    cases hgroups : rows.foldlM (plan.aggregateRow child.outputSchema) ∅ with
    | none =>
      rw [hgroups] at heq
      cases heq
    | some groups =>
      rw [hgroups] at heq
      refine ⟨groups, rfl, Option.some.inj (heq.symm.trans ?_)⟩
      refine mapM_eq_some_map fun values hmem => ?_
      obtain ⟨tuple, htuple⟩ := exists_of_mem_of_mapM heq hmem
      rw [htuple]
      rfl
  constructor
  · exact honly
  · rintro ⟨groups, hgroups, rfl⟩
    obtain ⟨out, hout, -⟩ := plan.exists_yields_of_groups order hchild hfuel hgroups
    obtain ⟨groups', hgroups', rfl⟩ := honly hout
    obtain rfl := Option.some.inj (hgroups.symm.trans hgroups')
    exact hout

/-- **The output has the rows of all keys**, in some order. -/
theorem perm_groupTuples (hgroups : rows.foldlM (plan.aggregateRow schema) ∅ = some groups)
    (hne : plan.groupBys ≠ []) (order : MapOrder (List UInt8) (List AggregateState)) :
    (plan.outputTuples order (!rows.isEmpty) groups).Perm (plan.groupTuples schema rows) := by
  refine ((outputValues_perm hgroups hne order).map _).trans (.of_eq ?_)
  rw [List.map_map]
  rfl

end AggregationPlan

end OneBase
