import OneBase.Execution.Aggregation
import OneBase.Execution.ScanRows
import OneBase.Execution.Sort
import OneBase.Optimizer.NLJToHashJoin
import OneBase.Optimizer.SeqScanToIndexScan

/-!
# Plan trees (`executor_factory.cpp`, `execution_engine.cpp`, `optimizer.cpp`)

A query is a tree of plan nodes. The factory makes an executor of each node over the
executors of its children, and the engine pulls the rows from the executor of the root.
`Optimize` walks the tree from the leaves and tries its two rules on every node.

- `PlanTree`: the nodes that read; a statement that changes the database has one of them
  as its child.
- `Limit.yields`, `Projection.yields`: the two executors that change one row at a time.
- `createExecutor`: the executor of a tree.
- `optimize`: the optimizer over the tree.
- `Executor.execute_eq`: the rows that the engine collects.
-/

namespace OneBase

open Cpp PageStore

/-- Model of the plan nodes that read (plan_nodes.h:8–192). -/
inductive PlanTree where
  | seqScan (outputSchema : Schema) (tableOid : Nat) (predicate : Option Expr)
  | indexScan (outputSchema : Schema) (tableOid indexOid : Nat) (lookupKey predicate : Option Expr)
  | nestedLoopJoin (outputSchema : Schema) (left right : PlanTree) (predicate : Option Expr)
  | hashJoin (outputSchema : Schema) (left right : PlanTree) (leftKeyExpr rightKeyExpr : Expr)
  | aggregation (plan : AggregationPlan) (child : PlanTree)
  | sort (plan : SortPlan) (child : PlanTree)
  | limit (outputSchema : Schema) (child : PlanTree) (limit : Nat)
  | projection (outputSchema : Schema) (child : PlanTree) (expressions : List Expr)

/-- Model of `GetOutputSchema`. -/
def PlanTree.outputSchema : PlanTree → Schema
  | seqScan outputSchema _ _ => outputSchema
  | indexScan outputSchema _ _ _ _ => outputSchema
  | nestedLoopJoin outputSchema _ _ _ => outputSchema
  | hashJoin outputSchema _ _ _ _ => outputSchema
  | aggregation plan _ => plan.outputSchema
  | sort plan _ => plan.outputSchema
  | limit outputSchema _ _ => outputSchema
  | projection outputSchema _ _ => outputSchema

/-! ## The limit executor -/

/-- The members of `LimitExecutor`. -/
structure Limit (σ : Type) where
  child : σ
  count : Nat := 0

namespace Limit

variable {σ : Type} (child : Executor σ) (limit : Nat)

/-- Model of `Init`. -/
def init (st : Limit σ) : Option (Limit σ) :=
  (child.init st.child).map fun l => { child := l, count := 0 }

/-- Model of `Next`. -/
def next (st : Limit σ) : Option (Option Tuple × Limit σ) :=
  if limit ≤ st.count then some (none, st)
  else
    match child.next st.child with
    | none => none
    | some (none, l) => some (none, { st with child := l })
    | some (some tuple, l) => some (some tuple, { child := l, count := st.count + 1 })

/-- The executor. -/
def executor (outputSchema : Schema) : Executor (Limit σ) where
  outputSchema := outputSchema
  init := init child
  next := next child limit

variable {child limit}

/-- **The first rows of the child**, as many as the limit says. -/
theorem yields {rows : List Tuple} (hchild : child.Yields rows) (outputSchema : Schema) :
    (executor child limit outputSchema).Yields (rows.take limit) := by
  have hproduces : ∀ {out : List Tuple} {st : Limit σ},
      (∃ rest, child.Produces st.child rest ∧ out = rest.take (limit - st.count)) →
      (executor child limit outputSchema).Produces st out := by
    refine Executor.produces_of
      (fun (st : Limit σ) out => ∃ rest, child.Produces st.child rest ∧
        out = rest.take (limit - st.count)) ?_
    rintro st out ⟨rest, hrest, rfl⟩
    show ∃ st', next child limit st = some (_, st') ∧ _
    rw [next]
    by_cases hlimit : limit ≤ st.count
    · rw [if_pos hlimit, Nat.sub_eq_zero_of_le hlimit, List.take_zero]
      exact ⟨st, rfl, fun tuple rows h => absurd h (List.cons_ne_nil _ _).symm⟩
    · obtain ⟨n, hn⟩ := Nat.exists_eq_succ_of_ne_zero (Nat.sub_ne_zero_of_lt (Nat.not_le.mp hlimit))
      rw [if_neg hlimit, hn]
      cases hrest with
      | done hnext =>
        rw [hnext]
        exact ⟨_, rfl, fun tuple rows h => absurd h (List.cons_ne_nil _ _).symm⟩
      | row hnext hrest =>
        rw [hnext]
        refine ⟨_, rfl, fun tuple rows h => ?_⟩
        obtain ⟨-, rfl⟩ := List.cons.inj h
        refine ⟨_, hrest, ?_⟩
        show List.take n _ = List.take (limit - (st.count + 1)) _
        congr 1
        omega
  intro st
  obtain ⟨l, hinit, hrows⟩ := hchild st.child
  refine ⟨⟨l, 0⟩, ?_, hproduces ⟨rows, hrows, rfl⟩⟩
  show (child.init st.child).map _ = _
  rw [hinit]
  rfl

end Limit

/-! ## The projection executor -/

/-- The tuple of the values of the expressions (projection_executor.cpp:23–31). -/
def projectRow (expressions : List Expr) (schema : Schema) (tuple : Tuple) : Option Tuple :=
  (expressions.mapM fun expr : Expr => expr.evaluate tuple schema).bind Tuple.ofValues

namespace Projection

variable {σ : Type} (child : Executor σ) (expressions : List Expr)

/-- Model of `Next`. -/
def next (st : σ) : Option (Option Tuple × σ) :=
  match child.next st with
  | none => none
  | some (none, l) => some (none, l)
  | some (some childTuple, l) =>
    (projectRow expressions child.outputSchema childTuple).map fun tuple => (some tuple, l)

/-- The executor; it has no members but its child. -/
def executor (outputSchema : Schema) : Executor σ where
  outputSchema := outputSchema
  init := child.init
  next := next child expressions

variable {child expressions}

/-- **The rows of the child**, each projected. -/
theorem yields {rows out : List Tuple} (hchild : child.Yields rows)
    (hout : rows.mapM (projectRow expressions child.outputSchema) = some out)
    (outputSchema : Schema) : (executor child expressions outputSchema).Yields out := by
  have hproduces : ∀ {out : List Tuple} {st : σ},
      (∃ rest, child.Produces st rest ∧
        rest.mapM (projectRow expressions child.outputSchema) = some out) →
      (executor child expressions outputSchema).Produces st out := by
    refine Executor.produces_of (fun st out => ∃ rest, child.Produces st rest ∧
      rest.mapM (projectRow expressions child.outputSchema) = some out) ?_
    rintro st out ⟨rest, hrest, hmap⟩
    show ∃ st', next child expressions st = some (_, st') ∧ _
    rw [next]
    have hall := mapM_eq_some_iff.mp hmap
    cases hrest with
    | done hnext =>
      obtain rfl := List.forall₂_nil_left_iff.mp hall
      rw [hnext]
      exact ⟨_, rfl, fun tuple rows h => absurd h (List.cons_ne_nil _ _).symm⟩
    | row hnext hrest =>
      obtain ⟨tuple, out', htuple, hall', rfl⟩ := List.forall₂_cons_left_iff.mp hall
      rw [hnext]
      simp only [htuple, Option.map_some]
      refine ⟨_, rfl, fun tuple' rows h => ?_⟩
      obtain ⟨-, rfl⟩ := List.cons.inj h
      exact ⟨_, hrest, mapM_eq_some_iff.mpr hall'⟩
  intro st
  obtain ⟨l, hinit, hrows⟩ := hchild st
  exact ⟨l, hinit, hproduces ⟨rows, hrows, hout⟩⟩

end Projection

/-! ## The factory and the engine -/

/-- The members of the executors of a tree. -/
def PlanTree.State : PlanTree → Type
  | seqScan _ _ _ => ScanExecutor × PageStore TablePage
  | indexScan _ _ _ _ _ => ScanExecutor × PageStore TablePage
  | nestedLoopJoin _ left right _ => NestedLoopJoin left.State right.State
  | hashJoin _ left right _ _ => HashJoin left.State right.State
  | aggregation _ child => Materialized child.State
  | sort _ child => Materialized child.State
  | limit _ child _ => Limit child.State
  | projection _ child _ => child.State

/-- What an execution depends on besides the plan: the database, `std::sort`, the order of
the map of the aggregation, and the fuel of the loops. -/
structure ExecContext where
  db : Database
  std : StdSort Tuple
  order : MapOrder (List UInt8) (List AggregateState)
  fuel : Nat

/-- Model of `CreateExecutor`. -/
def createExecutor (ctx : ExecContext) : (p : PlanTree) → Executor p.State
  | .seqScan outputSchema tableOid predicate =>
    ScanExecutor.executor ctx.db (ScanNode.seqScan tableOid predicate).plan outputSchema
  | .indexScan outputSchema tableOid indexOid lookupKey predicate =>
    ScanExecutor.executor ctx.db (ScanNode.indexScan tableOid indexOid lookupKey predicate).plan
      outputSchema
  | .nestedLoopJoin outputSchema left right predicate =>
    NestedLoopJoin.executor (createExecutor ctx left) (createExecutor ctx right) predicate ctx.fuel
      outputSchema
  | .hashJoin outputSchema left right leftKeyExpr rightKeyExpr =>
    HashJoin.executor (createExecutor ctx left) (createExecutor ctx right) leftKeyExpr rightKeyExpr
      ctx.fuel outputSchema
  | .aggregation plan child => plan.executor ctx.order (createExecutor ctx child) ctx.fuel
  | .sort plan child => plan.executor ctx.std (createExecutor ctx child) ctx.fuel
  | .limit outputSchema child limit =>
    Limit.executor (createExecutor ctx child) limit outputSchema
  | .projection outputSchema child expressions =>
    Projection.executor (createExecutor ctx child) expressions outputSchema

theorem outputSchema_createExecutor (ctx : ExecContext) (p : PlanTree) :
    (createExecutor ctx p).outputSchema = p.outputSchema := by
  cases p <;> rfl

/-- Model of `ExecutionEngine::Execute`, from whatever the members hold. -/
def Executor.execute {σ : Type} (e : Executor σ) (fuel : Nat) (st : σ) : Option (List Tuple) :=
  (e.init st).bind fun st =>
    (e.drain (fun resultSet tuple => some (resultSet ++ [tuple])) fuel st []).map Prod.fst

/-- The node of a scan. -/
def ScanNode.toPlan (outputSchema : Schema) : ScanNode → PlanTree
  | seqScan tableOid predicate => .seqScan outputSchema tableOid predicate
  | indexScan tableOid indexOid lookupKey predicate =>
    .indexScan outputSchema tableOid indexOid lookupKey predicate

/-- The node of a join. -/
def JoinNode.toPlan : JoinNode PlanTree → PlanTree
  | nestedLoopJoin outputSchema left right predicate =>
    .nestedLoopJoin outputSchema left right predicate
  | hashJoin outputSchema left right leftKeyExpr rightKeyExpr =>
    .hashJoin outputSchema left right leftKeyExpr rightKeyExpr

/-- Model of `Optimize`: the children first, then the two rules, neither of which looks at
a node that the other one makes. `indexes` gives the indexes of each table in the order in
which they are tried. -/
def optimize (c : Catalog) (indexes : Nat → List Nat) : PlanTree → PlanTree
  | .seqScan outputSchema tableOid predicate =>
    (optimizeSeqScanToIndexScan c (indexes tableOid) (.seqScan tableOid predicate)).toPlan
      outputSchema
  | .indexScan outputSchema tableOid indexOid lookupKey predicate =>
    .indexScan outputSchema tableOid indexOid lookupKey predicate
  | .nestedLoopJoin outputSchema left right predicate =>
    (optimizeNLJToHashJoin (.nestedLoopJoin outputSchema (optimize c indexes left)
      (optimize c indexes right) predicate)).toPlan
  | .hashJoin outputSchema left right leftKeyExpr rightKeyExpr =>
    .hashJoin outputSchema (optimize c indexes left) (optimize c indexes right) leftKeyExpr
      rightKeyExpr
  | .aggregation plan child => .aggregation plan (optimize c indexes child)
  | .sort plan child => .sort plan (optimize c indexes child)
  | .limit outputSchema child limit => .limit outputSchema (optimize c indexes child) limit
  | .projection outputSchema child expressions =>
    .projection outputSchema (optimize c indexes child) expressions

end OneBase
