import OneBase.Binder.SelectList
import OneBase.Execution.GroupRows
import OneBase.Execution.Sort
import OneBase.Lib.SortOutcomes

/-!
# ORDER BY over an aggregation (`binder/binder.cpp`, `sort_executor.cpp`)

`BindQuery` resolves the sort keys against the columns of the table, but the sort is
above the aggregation: it evaluates the keys on rows that have the group-by values and
then the aggregates. So a key `a` that is column `j` of the table sorts by column `j` of
the output, whatever this is.

- `bindSelect_ordered`: the plan of such a query.
- `forall_executes_iff`: what the sort over an aggregation outputs.
- `ordersByGroup_iff`: when the rows are sorted by the group-by column.
-/

namespace OneBase

open Cpp

/-! ## The plan -/

/-- A call of an aggregate function. -/
def IsAggregateCall (val : PGNode) : Prop :=
  ∃ funcname args aggStar aggDistinct aggFilter hasOver,
    val = .funcCall funcname args aggStar aggDistinct aggFilter hasOver ∧
    (aggregateType (lowerCopy funcname)).isSome

section

variable {stof : String → Option UInt32} {scopes : List TableScope}

/-- The flag stays set, and a call sets it. -/
theorem bindTarget_hasAggregates {state state' : TargetState} {target : ResTarget}
    (h : bindTarget stof scopes state target = some state')
    (hflag : state.hasAggregates = true ∨ IsAggregateCall target.val) :
    state'.hasAggregates = true := by
  have hplain : bindPlain stof scopes state target = some state' → state.hasAggregates = true →
      state'.hasAggregates = true := by
    intro hbind hset
    obtain ⟨ref, -, rfl⟩ := Option.map_eq_some_iff.mp hbind
    exact hset
  -- what is not a call of an aggregate function leaves the flag alone
  have hset : ¬ IsAggregateCall target.val → state.hasAggregates = true :=
    fun hnot => hflag.resolve_right hnot
  unfold bindTarget at h
  split at h
  · rename_i hval
    obtain rfl := Option.some.inj h
    refine hset ?_
    rw [hval]
    rintro ⟨_, _, _, _, _, _, heq, -⟩
    cases heq
  · rename_i hval
    obtain rfl := Option.some.inj h
    refine hset ?_
    rw [hval]
    rintro ⟨_, _, _, _, _, _, heq, -⟩
    cases heq
  · cases h
  · rename_i hval
    obtain rfl := Option.some.inj h
    refine hset ?_
    rw [hval]
    rintro ⟨_, _, _, _, _, _, heq, -⟩
    cases heq
  · rename_i funcname args aggStar aggDistinct aggFilter hasOver hval
    split at h
    · obtain ⟨call, -, rfl⟩ := Option.map_eq_some_iff.mp h
      rfl
    · rename_i hnone
      refine hplain h (hset ?_)
      rw [hval]
      rintro ⟨_, _, _, _, _, _, heq, hsome⟩
      cases heq
      rw [hnone] at hsome
      cases hsome
  · rename_i hcall
    refine hplain h (hset ?_)
    rintro ⟨funcname, args, aggStar, aggDistinct, aggFilter, hasOver, heq, -⟩
    exact hcall funcname args aggStar aggDistinct aggFilter hasOver heq

/-- **A select list with a call** sets the flag. -/
theorem bindTargets_hasAggregates {targets : List ResTarget} :
    ∀ {state state' : TargetState}, targets.foldlM (bindTarget stof scopes) state = some state' →
      (state.hasAggregates = true ∨ ∃ target ∈ targets, IsAggregateCall target.val) →
      state'.hasAggregates = true := by
  induction targets with
  | nil =>
    intro state state' h hflag
    obtain rfl := Option.some.inj h
    exact hflag.resolve_right fun ⟨_, hmem, _⟩ => List.not_mem_nil hmem
  | cons target targets ih =>
    intro state state' h hflag
    rw [List.foldlM_cons] at h
    obtain ⟨state₁, htarget, hrest⟩ := Option.bind_eq_some_iff.mp h
    rcases hflag with hset | ⟨call, hmem, hcall⟩
    · exact ih hrest (.inl (bindTarget_hasAggregates htarget (.inl hset)))
    · rcases List.mem_cons.mp hmem with rfl | hmem
      · exact ih hrest (.inl (bindTarget_hasAggregates htarget (.inr hcall)))
      · exact ih hrest (.inr ⟨call, hmem, hcall⟩)

end

/-- The aggregation of a statement. -/
structure BoundAggregation where
  groupBys : List ExpressionRef
  aggCalls : List (AggregationType × ExpressionRef)

namespace BoundAggregation

/-- Its output schema, which has a column for each. -/
def schema (agg : BoundAggregation) : Schema :=
  aggSchema agg.groupBys.length agg.aggCalls.length

/-- How many columns a row of its output has. -/
def width (agg : BoundAggregation) : Nat := agg.groupBys.length + agg.aggCalls.length

/-- Its plan, if there are no null pointers. -/
def plan (agg : BoundAggregation) : Option AggregationPlan :=
  toAggregationPlan agg.schema agg.groupBys agg.aggCalls

theorem getColumnCount_schema (agg : BoundAggregation) :
    agg.schema.getColumnCount = agg.width := by
  rw [Schema.getColumnCount_eq, schema, aggSchema, width, List.length_append, List.length_map,
    List.length_map, List.length_range, List.length_range]

/-- The aggregation node over the scan of a table. -/
def node (agg : BoundAggregation) (tableSchema : Schema) (predicate : ExpressionRef) : PlanNode :=
  .aggregation agg.schema (.seqScan tableSchema predicate) agg.groupBys agg.aggCalls

end BoundAggregation

/-- The aggregation that `BindQuery` makes of a statement. -/
def bindAggregates (stof : String → Option UInt32) (scope : TableScope) (stmt : SelectStmt) :
    Option BoundAggregation :=
  (stmt.targetList.foldlM (bindTarget stof [scope]) {}).bind fun state =>
    (stmt.groupClause.mapM (bindExpression stof [scope])).map fun groupBys =>
      { groupBys, aggCalls := state.aggCalls }

/-- The direction of a sort key. -/
def PGSortByDir.isAscending (dir : PGSortByDir) : Bool := decide (dir ≠ .desc)

/-- The limit of a statement. -/
def SelectStmt.limit? (stmt : SelectStmt) : Option Nat := (readLimit stmt.limitCount).join

theorem bindLimit_eq {stmt : SelectStmt} {base node : PlanNode}
    (h : bindLimit stmt base = some node) : node = limitNode base stmt.limit? := by
  obtain ⟨limit, hlimit, rfl⟩ := Option.map_eq_some_iff.mp h
  rw [SelectStmt.limit?, hlimit, Option.join_some]

/-- **The plan of a query with calls that is ordered by a column** of the table. -/
theorem bindSelect_ordered {stof : String → Option UInt32} {scope : TableScope}
    {stmt : SelectStmt} {plan : SelectPlan}
    (hcall : ∃ target ∈ stmt.targetList, IsAggregateCall target.val) {node : PGNode}
    {dir : PGSortByDir} (hsort : stmt.sortClause = [(node, dir)]) {key : ExpressionRef}
    (hnode : bindExpression stof [scope] node = some key)
    (hbind : bindSelect stof scope stmt = some plan) :
    ∃ agg predicate, bindAggregates stof scope stmt = some agg ∧
      plan.base = limitNode (.sort agg.schema (agg.node scope.schema predicate)
        [(dir.isAscending, key)]) stmt.limit? := by
  obtain ⟨predicate, -, hrest⟩ := Option.bind_eq_some_iff.mp hbind
  obtain ⟨state, hstate, hrest⟩ := Option.bind_eq_some_iff.mp hrest
  obtain ⟨base, hbase, hrest⟩ := Option.bind_eq_some_iff.mp hrest
  obtain ⟨sorted, hsorted, hrest⟩ := Option.bind_eq_some_iff.mp hrest
  obtain ⟨top, hlimit, htop⟩ := Option.bind_eq_some_iff.mp hrest
  have hagg := bindTargets_hasAggregates hstate (.inr hcall)
  rw [bindAggregation, if_pos hagg] at hbase
  obtain ⟨groupBys, hgroupBys, rfl⟩ := Option.map_eq_some_iff.mp hbase
  rw [bindSort, if_neg (by rw [hsort]; exact List.cons_ne_nil _ _), hsort, List.mapM_cons, hnode]
    at hsorted
  obtain rfl := Option.some.inj hsorted
  unfold bindProjection at htop
  rw [if_neg (by simp [hagg])] at htop
  obtain rfl := Option.some.inj htop
  refine ⟨⟨groupBys, state.aggCalls⟩, predicate, ?_, bindLimit_eq hlimit⟩
  rw [bindAggregates, hstate, Option.bind_some, hgroupBys]
  rfl

/-! ## Its execution -/

/-- A sort key without null pointers. -/
def toOrderBy (item : Bool × ExpressionRef) : Option (Bool × Expr) :=
  item.2.toExpr.map fun e => (item.1, e)

/-- **The rows that a plan returns** if its scan returns `rows`, with what `std::sort` makes of
the rows of a sort. -/
inductive PlanNode.Executes {σ : Type} (order : MapOrder (List UInt8) (List AggregateState))
    (std : StdSort Tuple) (scan : Executor σ) (rows : List Tuple) :
    PlanNode → List Tuple → Prop where
  | seqScan {schema : Schema} {predicate : ExpressionRef} (hschema : scan.outputSchema = schema) :
      Executes order std scan rows (.seqScan schema predicate) rows
  | aggregation {outputSchema schema : Schema} {predicate : ExpressionRef}
      {groupBys : List ExpressionRef} {aggregates : List (AggregationType × ExpressionRef)}
      {plan : AggregationPlan} {fuel : Nat} {out : List Tuple}
      (hschema : scan.outputSchema = schema)
      (hplan : toAggregationPlan outputSchema groupBys aggregates = some plan)
      (hfuel : rows.length < fuel) (hout : (plan.executor order scan fuel).Yields out) :
      Executes order std scan rows
        (.aggregation outputSchema (.seqScan schema predicate) groupBys aggregates) out
  | sort {outputSchema : Schema} {child : PlanNode} {orderBys : List (Bool × ExpressionRef)}
      {items : List (Bool × Expr)} {fuel : Nat} {childRows out : List Tuple}
      (hchild : Executes order std scan rows child childRows)
      (hitems : orderBys.mapM toOrderBy = some items) (hfuel : childRows.length < fuel)
      (hout : (SortPlan.executor ⟨outputSchema, items⟩ std
        (listExecutor child.getOutputSchema childRows) fuel).Yields out) :
      Executes order std scan rows (.sort outputSchema child orderBys) out
  | limit {outputSchema : Schema} {child : PlanNode} {limit : Nat} {childRows : List Tuple}
      (hchild : Executes order std scan rows child childRows) :
      Executes order std scan rows (.limit outputSchema child limit) (childRows.take limit)

/-- The columns that the sort keys read are columns of the rows that are sorted. -/
def PlanNode.SortKeysInRange : PlanNode → Prop
  | seqScan _ _ => True
  | aggregation _ child _ _ => child.SortKeysInRange
  | sort _ child orderBys => (∀ item ∈ orderBys,
      item.2.ForallColumns fun _ colIdx => colIdx < child.getOutputSchema.getColumnCount) ∧
        child.SortKeysInRange
  | limit _ child _ => child.SortKeysInRange

/-- The comparator of a sort by a column. It reads neither the tuple index nor the type of the
column. -/
def columnLess (schema : Schema) (isAscending : Bool) (col : Nat) : Tuple → Tuple → Option Bool :=
  sortLess schema [(isAscending, .columnValue 0 col .integer)]

/-- **The query is ordered by a column of its output**, in which the schema has the group-by
values: the sort keys are in range, and whatever `std::sort` does, the plan returns rows of which
no one comes before an earlier one. -/
structure OrdersBy {σ : Type} (order : MapOrder (List UInt8) (List AggregateState))
    (scan : Executor σ) (rows : List Tuple) (plan : SelectPlan) (isAscending : Bool) (col : Nat) :
    Prop where
  inRange : plan.base.SortKeysInRange
  sorted : ∀ std : StdSort Tuple, std.KeepsShort → ∃ out,
    plan.base.Executes order std scan rows out ∧
      out.Pairwise fun a b => columnLess plan.base.getOutputSchema isAscending col b a = some false

/-! ## The sort of the groups -/

/-- What a limit returns. -/
theorem executes_limitNode {σ : Type} {order : MapOrder (List UInt8) (List AggregateState)}
    {std : StdSort Tuple} {scan : Executor σ} {rows out : List Tuple} {limit : Option Nat}
    {base : PlanNode} :
    (limitNode base limit).Executes order std scan rows out ↔
      ∃ baseRows, base.Executes order std scan rows baseRows ∧ out = limited limit baseRows := by
  cases limit with
  | none =>
    constructor
    · exact fun h => ⟨out, h, rfl⟩
    · rintro ⟨baseRows, h, rfl⟩
      exact h
  | some limit =>
    constructor
    · rintro (_ | _ | _ | h)
      exact ⟨_, h, rfl⟩
    · rintro ⟨baseRows, h, rfl⟩
      exact .limit h

theorem getOutputSchema_limitNode (base : PlanNode) (limit : Option Nat) :
    (limitNode base limit).getOutputSchema = base.getOutputSchema := by
  cases limit <;> rfl

theorem sortKeysInRange_limitNode (base : PlanNode) (limit : Option Nat) :
    (limitNode base limit).SortKeysInRange ↔ base.SortKeysInRange := by
  cases limit <;> rfl

/-- What a sort by a column returns. -/
theorem executes_sort {σ : Type} {order : MapOrder (List UInt8) (List AggregateState)}
    {std : StdSort Tuple} {scan : Executor σ} {rows out : List Tuple} {outputSchema : Schema}
    {child : PlanNode} {isAscending : Bool} {tupleIdx col : Nat} {type : TypeId} :
    (PlanNode.sort outputSchema child
        [(isAscending, .columnValue tupleIdx col type)]).Executes order std scan rows out ↔
      ∃ childRows, child.Executes order std scan rows childRows ∧
        std.sort (columnLess child.getOutputSchema isAscending col) childRows = some out := by
  constructor
  · rintro (_ | _ | ⟨hchild, hitems, hfuel, hout⟩ | _)
    obtain rfl := Option.some.inj hitems
    refine ⟨_, hchild, ?_⟩
    have heq := Materialized.eq_of_yields (listExecutor_yields _ _) hfuel { child := [] } hout
    rw [SortPlan.foldlM_push, List.nil_append] at heq
    exact heq
  · rintro ⟨childRows, hchild, hout⟩
    refine .sort hchild rfl (Nat.lt_succ_self _) ?_
    refine Materialized.yields (listExecutor_yields _ _) (Nat.lt_succ_self _) _ ?_
    rw [SortPlan.foldlM_push, List.nil_append]
    exact hout

/-- A limit above a sort by a column returns the first rows of what the sort makes. -/
theorem executes_limitNode_sort {σ : Type} {order : MapOrder (List UInt8) (List AggregateState)}
    {std : StdSort Tuple} {scan : Executor σ} {rows out : List Tuple} {limit : Option Nat}
    {outputSchema : Schema} {child : PlanNode} {isAscending : Bool} {tupleIdx col : Nat}
    {type : TypeId} :
    (limitNode (.sort outputSchema child
        [(isAscending, .columnValue tupleIdx col type)]) limit).Executes order std scan rows out ↔
      ∃ childRows sorted, child.Executes order std scan rows childRows ∧
        std.sort (columnLess child.getOutputSchema isAscending col) childRows = some sorted ∧
        out = limited limit sorted := by
  rw [executes_limitNode]
  constructor
  · rintro ⟨sorted, hsorted, rfl⟩
    obtain ⟨childRows, hchild, hout⟩ := executes_sort.mp hsorted
    exact ⟨childRows, sorted, hchild, hout, rfl⟩
  · rintro ⟨childRows, sorted, hchild, hout, rfl⟩
    exact ⟨sorted, executes_sort.mpr ⟨childRows, hchild, hout⟩, rfl⟩

/-- **What an aggregation returns.** -/
theorem executes_aggregation {σ : Type} {order : MapOrder (List UInt8) (List AggregateState)}
    {std : StdSort Tuple} {scan : Executor σ} (st : σ) {rows out : List Tuple}
    (hscan : scan.Yields rows) (agg : BoundAggregation) (predicate : ExpressionRef) :
    (agg.node scan.outputSchema predicate).Executes order std scan rows out ↔
      ∃ plan groups, agg.plan = some plan ∧
        rows.foldlM (plan.aggregateRow scan.outputSchema) ∅ = some groups ∧
        out = plan.outputTuples order (!rows.isEmpty) groups := by
  constructor
  · rintro (_ | ⟨-, hplan, hfuel, hout⟩ | _ | _)
    obtain ⟨groups, hgroups, hout⟩ :=
      (AggregationPlan.yields_iff hscan hfuel { child := st }).mp hout
    exact ⟨_, groups, hplan, hgroups, hout⟩
  · rintro ⟨plan, groups, hplan, hgroups, hout⟩
    have hfuel := Nat.lt_succ_self rows.length
    exact .aggregation rfl hplan hfuel
      ((AggregationPlan.yields_iff hscan hfuel { child := st }).mpr ⟨groups, hgroups, hout⟩)

/-- The plan has as many group-by expressions. -/
theorem BoundAggregation.groupBys_ne {agg : BoundAggregation} {plan : AggregationPlan}
    (h : agg.plan = some plan) (hne : agg.groupBys ≠ []) : plan.groupBys ≠ [] := by
  obtain ⟨groupBys, hgroupBys, hrest⟩ := Option.bind_eq_some_iff.mp h
  obtain ⟨aggregates, -, rfl⟩ := Option.map_eq_some_iff.mp hrest
  intro hnil
  have hlen := length_of_mapM hgroupBys
  rw [show groupBys = [] from hnil] at hlen
  exact hne (List.length_eq_zero_iff.mp hlen.symm)

/-- A group-by clause that is not empty is bound to expressions. -/
theorem bindAggregates_groupBys_ne {stof : String → Option UInt32} {scope : TableScope}
    {stmt : SelectStmt} {agg : BoundAggregation} (hagg : bindAggregates stof scope stmt = some agg)
    (hne : stmt.groupClause ≠ []) : agg.groupBys ≠ [] := by
  obtain ⟨state, -, hagg⟩ := Option.bind_eq_some_iff.mp hagg
  obtain ⟨groupBys, hgroupBys, rfl⟩ := Option.map_eq_some_iff.mp hagg
  intro hnil
  have hlen := length_of_mapM hgroupBys
  rw [show groupBys = [] from hnil] at hlen
  exact hne (List.length_eq_zero_iff.mp hlen.symm)

/-- The key of the sort is in range if the output of the groups has the column. -/
theorem sortKeysInRange_sort_node (agg : BoundAggregation) (schema : Schema)
    (predicate : ExpressionRef) (isAscending : Bool) (tupleIdx col : Nat) (type : TypeId) :
    PlanNode.SortKeysInRange (.sort agg.schema (agg.node schema predicate)
      [(isAscending, .columnValue tupleIdx col type)]) ↔ col < agg.width := by
  rw [← agg.getColumnCount_schema]
  constructor
  · exact fun h => h.1 _ (List.mem_singleton_self _)
  · intro h
    refine ⟨fun item hitem => ?_, trivial⟩
    rw [List.mem_singleton.mp hitem]
    exact h

/-- The outputs of a sort of a list are those of a sort of the list in another order. -/
theorem forall_sorts_perm_iff {cmp : Tuple → Tuple → Option Bool} {R : Tuple → Tuple → Prop}
    {limit : Option Nat} {l l' : List Tuple} (hperm : l'.Perm l) :
    (∀ std : StdSort Tuple, std.KeepsShort →
        ∃ out, std.sort cmp l' = some out ∧ (limited limit out).Pairwise R) ↔
      l.length ≤ 1 ∨ ComparesOn cmp l ∧ ∀ a b, [a, b].Subperm l → cmp b a ≠ some true →
        ¬ PastLimit limit (mustPrecede cmp l a b) → R a b := by
  rw [forall_sorts_iff, hperm.length_eq]
  refine or_congr Iff.rfl (and_congr ⟨fun h => h.perm hperm.symm, fun h => h.perm hperm⟩ ?_)
  simp only [hperm.subperm_left, mustPrecede_perm hperm]

/-- The two groups may be output in this order: the second one does not come before the first
one in the column, and the limit leaves room for what must stand before it. -/
def MayFollow (limit : Option Nat) (less : Tuple → Tuple → Option Bool) (groups : List Tuple)
    (a b : Tuple) : Prop :=
  [a, b].Subperm groups ∧ less b a ≠ some true ∧ ¬ PastLimit limit (mustPrecede less groups a b)

/-- **When the rows are sorted by the group-by column** `g` of the output, if the key is column
`col` of the table: the output has a column `col`, and two groups that may be output in the order
of this column are in the order of column `g`. -/
theorem ordersByGroup_iff {σ : Type} {order : MapOrder (List UInt8) (List AggregateState)}
    {scan : Executor σ} (st : σ) {rows : List Tuple} (hscan : scan.Yields rows)
    {stof : String → Option UInt32} {scope : TableScope}
    (hschema : scan.outputSchema = scope.schema)
    {stmt : SelectStmt} {plan : SelectPlan}
    (hcall : ∃ target ∈ stmt.targetList, IsAggregateCall target.val)
    {g tupleIdx col : Nat} {groupNode node : PGNode} {dir : PGSortByDir}
    (hgroup : stmt.groupClause[g]? = some groupNode)
    (hsort : stmt.sortClause = [(node, dir)])
    (hnode : bindExpression stof [scope] node = some (.columnValue tupleIdx col .integer))
    (hbind : bindSelect stof scope stmt = some plan) :
    ∃ agg, bindAggregates stof scope stmt = some agg ∧
      (OrdersBy order scan rows plan dir.isAscending g ↔
        col < agg.width ∧ ∃ aggPlan groups, agg.plan = some aggPlan ∧
          rows.foldlM (aggPlan.aggregateRow scope.schema) ∅ = some groups ∧
          ((aggPlan.groupTuples scope.schema rows).length ≤ 1 ∨
            ComparesOn (columnLess agg.schema dir.isAscending col)
              (aggPlan.groupTuples scope.schema rows) ∧
            ∀ a b, MayFollow stmt.limit? (columnLess agg.schema dir.isAscending col)
                (aggPlan.groupTuples scope.schema rows) a b →
              columnLess agg.schema dir.isAscending g b a = some false)) := by
  obtain ⟨agg, predicate, hagg, hbase⟩ := bindSelect_ordered hcall hsort hnode hbind
  have hne : agg.groupBys ≠ [] := bindAggregates_groupBys_ne hagg fun hnil => by
    rw [hnil] at hgroup
    cases hgroup
  have houtput : plan.base.getOutputSchema = agg.schema := by
    rw [hbase, getOutputSchema_limitNode]
    rfl
  have hreturns : ∀ (std : StdSort Tuple) out, plan.base.Executes order std scan rows out ↔
      ∃ childRows sorted, (agg.node scope.schema predicate).Executes order std scan rows childRows ∧
        std.sort (columnLess agg.schema dir.isAscending col) childRows = some sorted ∧
        out = limited stmt.limit? sorted := fun std out => by
    rw [hbase]
    exact executes_limitNode_sort
  have hrange : plan.base.SortKeysInRange ↔ col < agg.width := by
    rw [hbase, sortKeysInRange_limitNode]
    exact sortKeysInRange_sort_node ..
  refine ⟨agg, hagg, ?_⟩
  rw [← hschema] at hreturns ⊢
  constructor
  · rintro ⟨hinRange, hsorted⟩
    refine ⟨hrange.mp hinRange, ?_⟩
    obtain ⟨out, hout, -⟩ := hsorted (.choosing []) (StdSort.keepsShort_choosing [])
    obtain ⟨childRows, -, hchild, -, -⟩ := (hreturns _ out).mp hout
    obtain ⟨aggPlan, groups, hplan, hgroups, -⟩ :=
      (executes_aggregation st hscan agg predicate).mp hchild
    refine ⟨aggPlan, groups, hplan, hgroups, ?_⟩
    have hperm := AggregationPlan.perm_groupTuples hgroups (agg.groupBys_ne hplan hne) order
    have hall := (@forall_sorts_perm_iff (columnLess agg.schema dir.isAscending col)
      (fun a b => columnLess agg.schema dir.isAscending g b a = some false) stmt.limit? _ _
      hperm).mp fun std hkeeps => ?_
    · exact hall.imp_right fun h => ⟨h.1, fun a b hab => h.2 a b hab.1 hab.2.1 hab.2.2⟩
    · obtain ⟨out, hout, hpairwise⟩ := hsorted std hkeeps
      obtain ⟨childRows, sorted, hchild, hsort, rfl⟩ := (hreturns std out).mp hout
      obtain ⟨aggPlan', groups', hplan', hgroups', rfl⟩ :=
        (executes_aggregation st hscan agg predicate).mp hchild
      obtain rfl := Option.some.inj (hplan.symm.trans hplan')
      obtain rfl := Option.some.inj (hgroups.symm.trans hgroups')
      rw [houtput] at hpairwise
      exact ⟨sorted, hsort, hpairwise⟩
  · rintro ⟨hinRange, aggPlan, groups, hplan, hgroups, hcond⟩
    refine ⟨hrange.mpr hinRange, fun std hkeeps => ?_⟩
    have hperm := AggregationPlan.perm_groupTuples hgroups (agg.groupBys_ne hplan hne) order
    obtain ⟨sorted, hsort, hpairwise⟩ :=
      (@forall_sorts_perm_iff (columnLess agg.schema dir.isAscending col)
        (fun a b => columnLess agg.schema dir.isAscending g b a = some false) stmt.limit? _ _
        hperm).mpr
        (hcond.imp_right fun h => ⟨h.1, fun a b hab hnot hlimit => h.2 a b ⟨hab, hnot, hlimit⟩⟩)
        std hkeeps
    rw [houtput]
    exact ⟨_, (hreturns std _).mpr ⟨_, sorted, (executes_aggregation st hscan agg predicate).mpr
      ⟨aggPlan, groups, hplan, hgroups, rfl⟩, hsort, rfl⟩, hpairwise⟩

/-- The plan of a query with calls and one sort key, from its clauses. -/
theorem bindSelect_of_clauses {stof : String → Option UInt32} {scope : TableScope}
    {stmt : SelectStmt} {predicate key : ExpressionRef} {state : TargetState}
    {groupBys : List ExpressionRef} {node : PGNode} {dir : PGSortByDir}
    (hwhere : bindExpression stof [scope] stmt.whereClause = some predicate)
    (hstate : stmt.targetList.foldlM (bindTarget stof [scope]) {} = some state)
    (hagg : state.hasAggregates = true)
    (hgroup : stmt.groupClause.mapM (bindExpression stof [scope]) = some groupBys)
    (hsort : stmt.sortClause = [(node, dir)]) (hlimit : stmt.limitCount = .null)
    (hnode : bindExpression stof [scope] node = some key) :
    ∃ plan, bindSelect stof scope stmt = some plan := by
  have hkeys : (stmt.sortClause.mapM fun (sortby : PGNode × PGSortByDir) =>
      (bindExpression stof [scope] sortby.1).map fun e => (decide (sortby.2 ≠ .desc), e)) =
        some [(decide (dir ≠ .desc), key)] := by
    rw [hsort, List.mapM_cons, hnode]
    rfl
  unfold bindSelect
  rw [hwhere, Option.bind_some, hstate, Option.bind_some, bindAggregation, if_pos hagg, hgroup,
    Option.map_some, Option.bind_some, bindSort, hkeys, if_neg (by simp [hsort]), Option.map_some,
    Option.bind_some, bindLimit, hlimit, readLimit, Option.map_some, Option.bind_some,
    bindProjection, if_neg (by simp [hagg])]
  exact ⟨_, rfl⟩

/-- `SELECT a, COUNT(*) FROM t GROUP BY a ORDER BY a`. -/
def orderedByA : SelectStmt :=
  { groupedByA [columnA, countStar] with sortClause := [(columnA, .default)] }

/-- Three rows in two groups. -/
def fiveThreeFive : List Tuple := [fiveRow, { values := [.integer 3] }, fiveRow]

/-- The two groups are sorted by column 0. -/
theorem ordersByGroup_iff_groups : ∃ plan agg,
    bindSelect (fun _ => none) tableT orderedByA = some plan ∧
    bindAggregates (fun _ => none) tableT orderedByA = some agg ∧
    OrdersBy (.stored _ _) (listExecutor tableT.schema fiveThreeFive) fiveThreeFive plan true
      0 := by
  have hcolumn := bindExpression_columnA fun _ => none
  have hstate : orderedByA.targetList.foldlM (bindTarget (fun _ => none) [tableT]) {} =
      some { hasAggregates := true
             aggCalls := [(.countStarAggregate, .columnValue 0 0 .integer)]
             outputExprs := [.columnValue 0 0 .integer]
             outputNames := ["a"] } := by
    show List.foldlM _ _ [(⟨none, columnA⟩ : ResTarget), ⟨none, countStar⟩] = _
    rw [List.foldlM_cons, bindTarget_columnA, Option.bind_eq_bind, Option.bind_some,
      List.foldlM_cons, bindTarget_countStar]
    rfl
  have hgroup : orderedByA.groupClause.mapM (bindExpression (fun _ => none) [tableT]) =
      some [.columnValue 0 0 .integer] := by
    show List.mapM _ [columnA] = _
    rw [List.mapM_cons, hcolumn]
    rfl
  obtain ⟨plan, hplan⟩ := @bindSelect_of_clauses (fun _ => none) tableT orderedByA .null _ _ _
    columnA .default (by show bindExpression _ _ .null = _; rw [bindExpression])
    hstate rfl hgroup rfl rfl hcolumn
  have hcall : ∃ target ∈ orderedByA.targetList, IsAggregateCall target.val := by
    refine ⟨⟨none, countStar⟩, List.mem_cons_of_mem _ List.mem_cons_self, "count", [], true,
      false, .null, false, rfl, ?_⟩
    decide
  obtain ⟨agg, hagg, hiff⟩ :=
    @ordersByGroup_iff _ (.stored _ _) _ [] _ (listExecutor_yields _ fiveThreeFive)
      (fun _ => none) tableT rfl orderedByA plan hcall 0 0 0 columnA columnA .default rfl rfl
      hcolumn hplan
  have heq : agg = ⟨[.columnValue 0 0 .integer],
      [(.countStarAggregate, .columnValue 0 0 .integer)]⟩ := by
    rw [bindAggregates, hstate, Option.bind_some, hgroup] at hagg
    exact (Option.some.inj hagg).symm
  refine ⟨plan, agg, hplan, hagg, hiff.mpr ?_⟩
  subst heq
  have htuples : (aCounts.groupTuples tableT.schema fiveThreeFive).map Tuple.values =
      [[.integer 3, .integer 1], [.integer 5, .integer 2]] := rfl
  have hcompares : ∀ a ∈ aCounts.groupTuples tableT.schema fiveThreeFive,
      ∀ b ∈ aCounts.groupTuples tableT.schema fiveThreeFive,
      columnLess (aggSchema 1 1) true 0 a b =
        some (lexLess (sortKeys (aggSchema 1 1) [(true, .columnValue 0 0 .integer)]) a b) := by
    intro a ha b hb
    refine sortLess_eq (fun item hitem => ?_) ha hb
    obtain rfl := List.mem_singleton.mp hitem
    refine ⟨.integer, .inl rfl, fun r hr => ?_⟩
    have hvalues : r.values ∈ [[Value.integer 3, .integer 1], [.integer 5, .integer 2]] :=
      htuples ▸ List.mem_map_of_mem hr
    rcases List.mem_pair.mp hvalues with h | h
    · exact ⟨.integer 3, by simp [Expr.evaluate, Expr.evaluateWith, Tuple.getValue, h], rfl⟩
    · exact ⟨.integer 5, by simp [Expr.evaluate, Expr.evaluateWith, Tuple.getValue, h], rfl⟩
  refine ⟨Nat.zero_lt_two, aCounts, _, rfl, rfl,
    .inr ⟨⟨_, isStrictWeakOrder_lexLess _, hcompares⟩, ?_⟩⟩
  rintro a b ⟨hsub, hless, -⟩
  have ha : a ∈ aCounts.groupTuples tableT.schema fiveThreeFive := hsub.subset List.mem_cons_self
  have hb : b ∈ aCounts.groupTuples tableT.schema fiveThreeFive :=
    hsub.subset (List.mem_cons_of_mem _ List.mem_cons_self)
  have hcmp := hcompares b hb a ha
  show columnLess (aggSchema 1 1) true 0 b a = some false
  have hless' : columnLess (aggSchema 1 1) true 0 b a ≠ some true := hless
  rw [hcmp] at hless' ⊢
  simpa using hless'

/-- The table `t (a INTEGER, b INTEGER, c INTEGER)`. -/
def tableABC : TableScope :=
  ⟨"t", ⟨[{ name := "a", type := .integer }, { name := "b", type := .integer },
    { name := "c", type := .integer }]⟩, 0⟩

/-- `SELECT COUNT(*) FROM t GROUP BY c ORDER BY c`. -/
def orderedByC : SelectStmt where
  whereClause := .null
  targetList := [{ name := none, val := countStar }]
  groupClause := [.columnRef [.string "c"]]
  sortClause := [(.columnRef [.string "c"], .default)]
  limitCount := .null

/-- `SELECT COUNT(*) FROM t GROUP BY c ORDER BY c`, where `c` is the third column: the sort key
reads the third column of rows with two. -/
theorem ordersBy_outOfRange : ¬ ∀ (σ : Type) (order : MapOrder (List UInt8) (List AggregateState))
    (scan : Executor σ) (_ : σ) (rows : List Tuple) (stof : String → Option UInt32)
    (scope : TableScope) (stmt : SelectStmt) (plan : SelectPlan) (g tupleIdx col : Nat)
    (groupNode node : PGNode) (dir : PGSortByDir), scan.Yields rows →
    scan.outputSchema = scope.schema →
    (∃ target ∈ stmt.targetList, IsAggregateCall target.val) →
    stmt.groupClause[g]? = some groupNode →
    bindExpression stof [scope] groupNode = some (.columnValue tupleIdx col .integer) →
    stmt.sortClause = [(node, dir)] →
    bindExpression stof [scope] node = some (.columnValue tupleIdx col .integer) →
    bindSelect stof scope stmt = some plan → OrdersBy order scan rows plan dir.isAscending g := by
  intro h
  have hcolumn : bindExpression (fun _ => none) [tableABC] (.columnRef [.string "c"]) =
      some (.columnValue 0 2 .integer) := by
    rw [bindExpression]
    rfl
  have hname : lowerCopy "count" = "count" := by decide
  have hstate : orderedByC.targetList.foldlM (bindTarget (fun _ => none) [tableABC]) {} =
      some { hasAggregates := true
             aggCalls := [(.countStarAggregate, .columnValue 0 0 .integer)] } := by
    show List.foldlM _ _ [(⟨none, countStar⟩ : ResTarget)] = _
    rw [List.foldlM_cons]
    unfold bindTarget countStar
    dsimp only
    rw [hname]
    rfl
  have hgroup : orderedByC.groupClause.mapM (bindExpression (fun _ => none) [tableABC]) =
      some [.columnValue 0 2 .integer] := by
    show List.mapM _ [PGNode.columnRef [.string "c"]] = _
    rw [List.mapM_cons, hcolumn]
    rfl
  obtain ⟨plan, hplan⟩ := @bindSelect_of_clauses (fun _ => none) tableABC orderedByC .null _ _ _ _
    .default (by show bindExpression _ _ .null = _; rw [bindExpression])
    hstate rfl hgroup rfl rfl hcolumn
  have hcall : ∃ target ∈ orderedByC.targetList, IsAggregateCall target.val := by
    refine ⟨_, List.mem_singleton_self _, "count", [], true, false, .null, false, rfl, ?_⟩
    decide
  have horders := h _ (.stored _ _) _ [] _ (fun _ => none) tableABC orderedByC plan 0 0 2 _ _ _
    (listExecutor_yields tableABC.schema []) rfl hcall rfl hcolumn rfl hcolumn hplan
  -- the plan is a sort by column 2 of an aggregation with two columns
  obtain ⟨agg, predicate, hagg, hbase⟩ := bindSelect_ordered hcall rfl hcolumn hplan
  have hwidth : agg.width = 2 := by
    rw [bindAggregates, hstate, Option.bind_some, hgroup] at hagg
    obtain rfl := Option.some.inj hagg
    rfl
  have hrange := horders.inRange
  rw [hbase] at hrange
  have hlt : 2 < agg.schema.getColumnCount := hrange.1 _ (List.mem_singleton_self _)
  rw [agg.getColumnCount_schema, hwidth] at hlt
  exact Nat.lt_irrefl 2 hlt

end OneBase
