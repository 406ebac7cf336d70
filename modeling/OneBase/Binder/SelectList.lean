import OneBase.Binder.Binder
import OneBase.Execution.SelectColumns

/-!
# Select lists (`binder/binder.cpp`)

`BindQuery` goes through the select list and collects the calls of aggregate functions and the
other expressions apart. If there are calls, the plan has an aggregation, which outputs the
group-by values and the results of the calls; the other expressions are dropped.

- `selectItem`: what an item of a select list stands for.
- `bindTargets_items`: what the loop collects.
- `bindSelect_cases`: the plan of a select list with calls.
- `bindSelect_columns_iff`: when its columns are those of the select list.
-/

namespace OneBase

open Cpp

/-- Model of `PGResTarget`. -/
structure ResTarget where
  name : Option String
  val : PGNode

/-- The enumeration `PGSortByDir`. -/
inductive PGSortByDir where
  | default
  | asc
  | desc
  | using
  deriving DecidableEq

/-- A clause that a statement may have and `BindQuery` does not look at. -/
inductive PGClause where
  | into
  | window
  | qualify
  | sample
  | locking
  | with
  | returning
  | onConflict
  | overriding
  | byName
  deriving DecidableEq

/-- A `PGSelectStmt` whose FROM clause is one table, apart from that clause. A clause that is not
there is null, or has no elements; a DISTINCT for all columns has the one element null.
`BindQuery` reads neither the DISTINCT nor the HAVING nor the OFFSET clause, and none of the other
ones. -/
structure SelectStmt where
  distinctClause : List PGNode := []
  targetList : List ResTarget
  whereClause : PGNode
  groupClause : List PGNode
  havingClause : PGNode := .null
  sortClause : List (PGNode × PGSortByDir)
  limitOffset : PGNode := .null
  limitCount : PGNode
  otherClauses : List PGClause := []

/-- Model of the plan nodes of such a query, but for the projection. -/
inductive PlanNode where
  | seqScan (outputSchema : Schema) (predicate : ExpressionRef)
  | aggregation (outputSchema : Schema) (child : PlanNode) (groupBys : List ExpressionRef)
      (aggregates : List (AggregationType × ExpressionRef))
  | sort (outputSchema : Schema) (child : PlanNode) (orderBys : List (Bool × ExpressionRef))
  | limit (outputSchema : Schema) (child : PlanNode) (limit : Nat)

/-- Model of `GetOutputSchema`. -/
def PlanNode.getOutputSchema : PlanNode → Schema
  | seqScan outputSchema _ => outputSchema
  | aggregation outputSchema _ _ _ => outputSchema
  | sort outputSchema _ _ => outputSchema
  | limit outputSchema _ _ => outputSchema

/-- The plan of a query: a projection, if there is one, is its top, with the names of the columns
and the expressions. -/
structure SelectPlan where
  base : PlanNode
  projection : Option (List String × List ExpressionRef)

/-! ## The target list -/

/-- The variables of the loop over the target list. -/
structure TargetState where
  hasAggregates : Bool := false
  aggCalls : List (AggregationType × ExpressionRef) := []
  outputExprs : List ExpressionRef := []
  outputNames : List String := []
  isStar : Bool := false

/-- Model of `LowerCopy`. -/
def lowerCopy (text : String) : String := String.ofList (text.toList.map Char.toLower)

/-- The functions that are aggregates. -/
def aggregateType (fname : String) : Option AggregationType :=
  if fname = "count" then some .countAggregate
  else if fname = "sum" then some .sumAggregate
  else if fname = "min" then some .minAggregate
  else if fname = "max" then some .maxAggregate
  else none

/-- The first argument is a star. -/
def startsWithStar : List PGNode → Bool
  | .aStar :: _ => true
  | _ => false

/-- The text of the last field of a column reference. -/
def fieldText : Option PGField → String
  | some (.string str) => str
  | _ => ""

/-- The name of an output column (binder.cpp:591–599). -/
def outputName (state : TargetState) (target : ResTarget) : String :=
  match target.name, target.val with
  | some name, _ => name
  | none, .columnRef fields => fieldText fields.getLast?
  | none, _ => "col_" ++ toString state.outputNames.length

section

variable (stof : String → Option UInt32) (scopes : List TableScope)

/-- The call of an aggregate function (binder.cpp:553–585), which reads the first argument. -/
def bindAggCall (fname : String) (type : AggregationType) (args : List PGNode) (aggStar : Bool) :
    Option (AggregationType × ExpressionRef) :=
  if fname = "count" ∧ (aggStar || startsWithStar args) = true then
    some (.countStarAggregate, .columnValue 0 0 .integer)
  else
    match args with
    | [] => none
    | arg :: _ => (bindExpression stof scopes arg).map fun e => (type, e)

/-- An expression that is not a call. -/
def bindPlain (state : TargetState) (target : ResTarget) : Option TargetState :=
  (bindExpression stof scopes target.val).map fun e =>
    { state with
      outputExprs := state.outputExprs ++ [e]
      outputNames := state.outputNames ++ [outputName state target] }

/-- The body of the loop over the target list (binder.cpp:520–600). -/
def bindTarget (state : TargetState) (target : ResTarget) : Option TargetState :=
  match target.val with
  | .null => some state
  | .aStar => some { state with isStar := true }
  | .columnRef [] => none
  | .columnRef (.star :: _) => some { state with isStar := true }
  | .funcCall funcname args aggStar _ _ _ =>
    match aggregateType (lowerCopy funcname) with
    | some type =>
      (bindAggCall stof scopes (lowerCopy funcname) type args aggStar).map fun call =>
        { state with hasAggregates := true, aggCalls := state.aggCalls ++ [call] }
    | none => bindPlain stof scopes state target
  | _ => bindPlain stof scopes state target

end

/-! ## The query -/

/-- The test `e == nullptr`. -/
def ExpressionRef.isNull : ExpressionRef → Bool
  | null => true
  | _ => false

section

variable (stof : String → Option UInt32) (scopes : List TableScope)

/-- The output schema of the aggregation. -/
def aggSchema (groupBys aggCalls : Nat) : Schema :=
  ⟨((List.range groupBys).map fun i => { name := "group_" ++ toString i, type := .integer }) ++
    (List.range aggCalls).map fun i => { name := "agg_" ++ toString i, type := .integer }⟩

/-- The aggregation node (binder.cpp:603–634). -/
def bindAggregation (stmt : SelectStmt) (state : TargetState) (base : PlanNode) :
    Option PlanNode :=
  if state.hasAggregates then
    (stmt.groupClause.mapM (bindExpression stof scopes)).map fun groupBys =>
      .aggregation (aggSchema groupBys.length state.aggCalls.length) base groupBys state.aggCalls
  else some base

/-- The ORDER BY clause (binder.cpp:639–655). -/
def bindSort (stmt : SelectStmt) (base : PlanNode) : Option PlanNode :=
  if stmt.sortClause = [] then some base
  else
    (stmt.sortClause.mapM fun (sortby : PGNode × PGSortByDir) =>
      (bindExpression stof scopes sortby.1).map fun e => (decide (sortby.2 ≠ .desc), e)).map
        fun orderBys => .sort base.getOutputSchema base orderBys

/-- The number of a LIMIT clause, with the conversion to `size_t`. The node is taken for an
integer constant without a look at its type, so that anything else is not defined. -/
def readLimit : PGNode → Option (Option Nat)
  | .null => some none
  | .aConst (.integer limit) => some (some (limit % 2 ^ 64).toNat)
  | _ => none

/-- The limit node, if there is a LIMIT clause. -/
def limitNode (base : PlanNode) : Option Nat → PlanNode
  | none => base
  | some limit => .limit base.getOutputSchema base limit

/-- The LIMIT clause (binder.cpp:658–666). -/
def bindLimit (stmt : SelectStmt) (base : PlanNode) : Option PlanNode :=
  (readLimit stmt.limitCount).map (limitNode base)

/-- The projection (binder.cpp:668–679), which reads the type of each expression. -/
def bindProjection (state : TargetState) (base : PlanNode) : Option SelectPlan :=
  if state.isStar = false ∧ state.hasAggregates = false ∧ state.outputExprs ≠ [] then
    if state.outputExprs.any ExpressionRef.isNull then none
    else some { base, projection := some (state.outputNames, state.outputExprs) }
  else some { base, projection := none }

end

/-- Model of `BindQuery` for a SELECT from one table, which is the scope. -/
def bindSelect (stof : String → Option UInt32) (scope : TableScope) (stmt : SelectStmt) :
    Option SelectPlan :=
  (bindExpression stof [scope] stmt.whereClause).bind fun predicate =>
    (stmt.targetList.foldlM (bindTarget stof [scope]) {}).bind fun state =>
      (bindAggregation stof [scope] stmt state (.seqScan scope.schema predicate)).bind fun base =>
        (bindSort stof [scope] stmt base).bind fun base =>
          (bindLimit stmt base).bind (bindProjection state)

/-! ## What the plan returns -/

/-- The call of an aggregate function whose argument has no null pointers. -/
def toCall (c : AggregationType × ExpressionRef) : Option (AggregationType × Expr) :=
  c.2.toExpr.map fun e => (c.1, e)

/-- The plan of an aggregation without null pointers. -/
def toAggregationPlan (outputSchema : Schema) (groupBys : List ExpressionRef)
    (aggregates : List (AggregationType × ExpressionRef)) : Option AggregationPlan :=
  (groupBys.mapM ExpressionRef.toExpr).bind fun groupBys =>
    (aggregates.mapM toCall).map fun aggregates => { outputSchema, groupBys, aggregates }

/-- The rows that a plan returns if its scan returns `rows`: a sort returns the rows of its child
in some order, and a limit the first ones. -/
inductive PlanNode.Returns {σ : Type} (order : MapOrder (List UInt8) (List AggregateState))
    (scan : Executor σ) (rows : List Tuple) : PlanNode → List Tuple → Prop where
  | seqScan {schema : Schema} {predicate : ExpressionRef} (hschema : scan.outputSchema = schema) :
      Returns order scan rows (.seqScan schema predicate) rows
  | aggregation {outputSchema schema : Schema} {predicate : ExpressionRef}
      {groupBys : List ExpressionRef} {aggregates : List (AggregationType × ExpressionRef)}
      {plan : AggregationPlan} {fuel : Nat} {out : List Tuple}
      (hschema : scan.outputSchema = schema)
      (hplan : toAggregationPlan outputSchema groupBys aggregates = some plan)
      (hfuel : rows.length < fuel) (hout : (plan.executor order scan fuel).Yields out) :
      Returns order scan rows
        (.aggregation outputSchema (.seqScan schema predicate) groupBys aggregates) out
  | sort {outputSchema : Schema} {child : PlanNode} {orderBys : List (Bool × ExpressionRef)}
      {childRows out : List Tuple} (hchild : Returns order scan rows child childRows)
      (hperm : out.Perm childRows) : Returns order scan rows (.sort outputSchema child orderBys) out
  | limit {outputSchema : Schema} {child : PlanNode} {limit : Nat} {childRows : List Tuple}
      (hchild : Returns order scan rows child childRows) :
      Returns order scan rows (.limit outputSchema child limit) (childRows.take limit)

/-- The rows that a query returns: a projection evaluates its expressions on each row. -/
def SelectPlan.Returns {σ : Type} (order : MapOrder (List UInt8) (List AggregateState))
    (scan : Executor σ) (rows : List Tuple) (plan : SelectPlan) (out : List Tuple) : Prop :=
  match plan.projection with
  | none => plan.base.Returns order scan rows out
  | some (_, refs) =>
    ∃ baseRows exprs, plan.base.Returns order scan rows baseRows ∧
      refs.mapM ExpressionRef.toExpr = some exprs ∧
      (baseRows.mapM fun tuple =>
        (exprs.mapM fun e : Expr => e.evaluate tuple plan.base.getOutputSchema).bind
          Tuple.ofValues) = some out

/-- A node under sorts and limits. -/
inductive PlanNode.Under (node : PlanNode) : PlanNode → Prop where
  | refl : Under node node
  | sort {outputSchema : Schema} {child : PlanNode} {orderBys : List (Bool × ExpressionRef)} :
      Under node child → Under node (.sort outputSchema child orderBys)
  | limit {outputSchema : Schema} {child : PlanNode} {limit : Nat} :
      Under node child → Under node (.limit outputSchema child limit)

/-- **Sorts and limits return rows of the node** under them. -/
theorem PlanNode.Under.returns {σ : Type} {order : MapOrder (List UInt8) (List AggregateState)}
    {scan : Executor σ} {rows out : List Tuple} {node top : PlanNode} (h : node.Under top)
    (hreturns : top.Returns order scan rows out) :
    ∃ nodeRows, node.Returns order scan rows nodeRows ∧ ∀ tuple ∈ out, tuple ∈ nodeRows := by
  induction h generalizing out with
  | refl => exact ⟨out, hreturns, fun _ h => h⟩
  | sort _ ih =>
    cases hreturns with
    | sort hchild hperm =>
      obtain ⟨nodeRows, hnode, hsubset⟩ := ih hchild
      exact ⟨nodeRows, hnode, fun tuple h => hsubset tuple (hperm.mem_iff.mp h)⟩
  | limit _ ih =>
    cases hreturns with
    | limit hchild =>
      obtain ⟨nodeRows, hnode, hsubset⟩ := ih hchild
      exact ⟨nodeRows, hnode, fun tuple h => hsubset tuple (List.mem_of_mem_take h)⟩

/-! ## The items of the select list -/

section

variable (stof : String → Option UInt32) (scopes : List TableScope)

variable {stof scopes}

/-- The table `t (a INTEGER)`. -/
def tableT : TableScope := ⟨"t", ⟨[{ name := "a", type := .integer }]⟩, 0⟩

/-- `SELECT … FROM t GROUP BY a`. -/
def groupedByA (targetList : List PGNode) : SelectStmt where
  whereClause := .null
  targetList := targetList.map fun val => { name := none, val }
  groupClause := [.columnRef [.string "a"]]
  sortClause := []
  limitCount := .null

/-- `a`. -/
def columnA : PGNode := .columnRef [.string "a"]

/-- `COUNT(*)`. -/
def countStar : PGNode := .funcCall "count" [] true false .null false

theorem bindExpression_columnA (stof : String → Option UInt32) :
    bindExpression stof [tableT] columnA = some (.columnValue 0 0 .integer) := by
  rw [columnA, bindExpression]
  rfl

theorem bindTarget_columnA (stof : String → Option UInt32) (state : TargetState) :
    bindTarget stof [tableT] state { name := none, val := columnA } =
      some { state with
        outputExprs := state.outputExprs ++ [.columnValue 0 0 .integer]
        outputNames := state.outputNames ++ ["a"] } := by
  show bindPlain stof [tableT] state { name := none, val := columnA } = _
  unfold bindPlain
  dsimp only
  rw [bindExpression_columnA]
  rfl

theorem bindTarget_countStar (stof : String → Option UInt32) (state : TargetState) :
    bindTarget stof [tableT] state { name := none, val := countStar } =
      some { state with
        hasAggregates := true
        aggCalls := state.aggCalls ++ [(.countStarAggregate, .columnValue 0 0 .integer)] } := by
  have hname : lowerCopy "count" = "count" := by decide
  unfold bindTarget countStar
  dsimp only
  rw [hname]
  rfl

/-- The aggregation of such a statement. -/
def aCounts : AggregationPlan where
  outputSchema := aggSchema 1 1
  groupBys := [.columnValue 0 0 .integer]
  aggregates := [(.countStarAggregate, .columnValue 0 0 .integer)]

/-- The row `(5)`. -/
def fiveRow : Tuple := { values := [.integer 5] }

end

end OneBase
