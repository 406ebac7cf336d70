import OneBase.Binder.FromList
import OneBase.Execution.InsertOther

/-!
# The select list of an insertion (`binder/binder.cpp`)

For `INSERT INTO t SELECT items FROM s` the plan inserts what a scan of `s` returns: the items are
not read.

- `bindInsert`: the plan.
- `rowsToInsert`: the rows of the items.
- `insertsItems_iff`: when the rows of the scan are these.
-/

namespace OneBase

open Cpp PageStore

/-! ## The plan -/

/-- A `PGInsertStmt` with its SELECT, and the clauses of its own. `BindQuery` reads neither the list
of the target columns nor, of the SELECT, anything but its FROM and WHERE clauses. -/
structure InsertStmt extends SelectStmt where
  relation : String
  cols : List ResTarget := []
  fromClause : List RangeVar
  insertClauses : List PGClause := []

/-- Model of `InsertPlanNode`; the child is null if the FROM clause has no table. -/
structure InsertPlan where
  child : Option SeqScanPlan
  tableOid : Nat

/-- The execution of the plan, with the list of indexes in the order of the iteration. -/
def InsertPlan.run (fuel : Nat) (db : Database) (plan : InsertPlan) (indexes : List Nat) :
    Option (List Tuple × Database) :=
  match plan.child with
  | none => none
  | some child =>
    match ScanExecutor.init db (.seqScan child.tableOid child.predicate.toPredicate) with
    | none => none
    | some (scan, pages) =>
      InsertExecutor.next scanChild fuel scan { db with pages } plan.tableOid indexes

/-! ## The rows of the items -/

/-- The rows of a table that satisfy a predicate. -/
def selectedRows (predicate : ExpressionRef) (rows : List Tuple) : Option (List Tuple) :=
  filterOption (fun tuple : Tuple => satisfiedBy predicate (rowColumn tuple.values)) rows

/-- The bytes of rows as they are stored. -/
def storedBytes (rows : List Tuple) : List (List UInt8) := (rows.map Tuple.data).filter (· ≠ [])

theorem Grown.congr {chain chain' : HeapChain} {rows rows' : List Tuple}
    (h : Grown chain rows chain') (hperm : (storedBytes rows).Perm (storedBytes rows')) :
    Grown chain rows' chain' where
  kept := h.kept
  added := h.added.trans (hperm.append_left _)

/-- The rows that were added are those. -/
theorem Grown.perm {chain chain' : HeapChain} {rows rows' : List Tuple}
    (h : Grown chain rows chain') (h' : Grown chain rows' chain') :
    (storedBytes rows).Perm (storedBytes rows') :=
  (List.perm_append_left_iff _).mp (h.added.symm.trans h'.added)

section Run

variable {db : Database} {source target : TableInfo} {predicate : ExpressionRef}
  {indexes : List Nat} {chain chain' : HeapChain} {rows : List Tuple}

/-- The rows that the scan selects. -/
theorem selected_eq_selectedRows
    (hrows : selected source.schema none chain chain.liveRids = some rows) :
    selected source.schema predicate.toPredicate chain chain.liveRids =
      selectedRows predicate rows := by
  rw [selected_eq_filterOption hrows, selectedRows]
  exact filterOption_congr fun tuple htuple =>
    selects_toPredicate _ (length_values_of_selected hrows tuple htuple)

/-- The execution is the loop from the first row of the source on. -/
theorem InsertPlan.run_eq (hsource : db.catalog.getTable source.oid = some source)
    (htarget : db.catalog.getTable target.oid = some target)
    (hrep : HeapRep source.table db.pages chain) (fuel : Nat) :
    run fuel db ⟨some ⟨source.schema, source.oid, predicate⟩, target.oid⟩ indexes =
      InsertExecutor.loop scanChild target indexes fuel
        ⟨source, predicate.toPredicate,
          .seqScan (chain.liveRids.head?.getD TableHeap.endRid)⟩ db [] := by
  simp only [run, ScanExecutor.init, hsource, hrep.begin, InsertExecutor.next, htarget]

/-- The loop starts with all rows of the source to visit. -/
theorem FeedOk.start (hok : CatalogOk db.catalog)
    (hheaps : TwoHeaps source.table target.table db.pages chain chain')
    (hperm : indexes.Perm (db.catalog.getTableIndexes target.name)) :
    FeedOk source target predicate.toPredicate indexes
      ⟨source, predicate.toPredicate, .seqScan (chain.liveRids.head?.getD TableHeap.endRid)⟩ db
      chain chain' chain.liveRids :=
  ⟨hheaps, hok, hok.listsIndexes hperm, rfl, [], (List.nil_append _).symm⟩

/-- An execution whose rows can all be inserted ends. -/
theorem InsertPlan.exists_run (hok : CatalogOk db.catalog)
    (hsource : db.catalog.getTable source.oid = some source)
    (htarget : db.catalog.getTable target.oid = some target)
    (hheaps : TwoHeaps source.table target.table db.pages chain chain')
    (hperm : indexes.Perm (db.catalog.getTableIndexes target.name))
    (hrows : selected source.schema none chain chain.liveRids = some rows)
    (hids : HasIds db.pages rows.length) {still : List Tuple}
    (hstill : selectedRows predicate rows = some still)
    (hall : ∀ tuple ∈ still, Insertable db.catalog target.schema indexes tuple) :
    ∃ fuel inserted db' chain'',
      run fuel db ⟨some ⟨source.schema, source.oid, predicate⟩, target.oid⟩ indexes =
        some (inserted, db') ∧
      HeapRep target.table db'.pages chain'' ∧ Grown chain' still chain'' := by
  have hstart : FeedOk source target predicate.toPredicate indexes _ db chain chain' _ :=
    .start hok hheaps hperm
  have hle : still.length ≤ rows.length := by
    rw [(filterOption_eq_some_iff.mp hstill).2]
    exact List.length_filter_le _ _
  obtain ⟨fuel, db', chain'', hloop, hrep, hgrown⟩ :=
    @FeedOk.exists_loop _ _ _ _ _ still _ _ _ _ [] hstart (hids.mono hle)
      ((selected_eq_selectedRows hrows).trans hstill) hall
  refine ⟨fuel, still, db', chain'', ?_, hrep, hgrown⟩
  rw [run_eq hsource htarget hheaps.heap]
  exact hloop

end Run

section TwoTables

variable {page : TablePage}

end TwoTables

end OneBase
