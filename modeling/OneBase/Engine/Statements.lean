import OneBase.Catalog.Histories
import OneBase.Engine.BagSemantics
import OneBase.Engine.UpdateRows

/-!
# Statements over bags of rows

The database keeps its tables in chains of pages and finds rows through indexes; what its
statements mean is simpler. A table is a bag of rows, `INSERT` adds rows to it, `DELETE` takes
away those that satisfy a predicate, `UPDATE` puts others in their place, and an index is nothing.

- `DeleteExecutor.next_unique`, `UpdateExecutor.next_unique`: the fuel does not matter.
- `StatementRun`: runs of statements, with the bags that they stand for.
- `StatementRun.stores`: the rows that are stored are those bags.
- `statementRun_query`: a query with types returns the bag that it denotes.
-/

namespace OneBase

open Cpp PageStore UpdateExecutor

/-! ## Fuel -/

/-- A result that more fuel does not change is the only one. -/
theorem unique_of_succ {α : Type} {f : Nat → Option α}
    (hsucc : ∀ {n r}, f n = some r → f (n + 1) = some r) {m n : Nat} {r r' : α}
    (hm : f m = some r) (hn : f n = some r') : r = r' := by
  have hle : ∀ {m n : Nat} {r : α}, m ≤ n → f m = some r → f n = some r := by
    intro m n r hmn hr
    induction hmn with
    | refl => exact hr
    | step _ ih => exact hsucc ih
  rcases Nat.le_total m n with hmn | hnm
  · exact Option.some.inj ((hle hmn hm).symm.trans hn)
  · exact Option.some.inj (hm.symm.trans (hle hnm hn))

/-- The loop of a deletion, with more fuel. -/
theorem DeleteExecutor.loop_succ {table : TableInfo} {oids : List Nat} {fuel : Nat} :
    ∀ {scan : ScanExecutor} {db : Database} {deleted : Int32} {r : Int32 × Database},
      loop table oids fuel scan db deleted = some r →
      loop table oids (fuel + 1) scan db deleted = some r := by
  induction fuel with
  | zero =>
    intro scan db deleted r h
    cases h
  | succ fuel ih =>
    intro scan db deleted r h
    rw [loop] at h ⊢
    split at h
    · cases h
    · exact h
    · split at h
      · cases h
      · exact ih h

/-- **A deletion has one result.** -/
theorem DeleteExecutor.next_unique {plan : ScanPlan} {db : Database} {toid : Nat}
    {oids : List Nat} {fuel fuel' : Nat} {r r' : Int32 × Database}
    (h : next fuel plan db toid oids = some r) (h' : next fuel' plan db toid oids = some r') :
    r = r' := by
  refine @unique_of_succ _ (fun fuel => next fuel plan db toid oids) (fun {n r} hn => ?_) _ _ _ _ h
    h'
  rw [next] at hn ⊢
  split at hn
  · cases hn
  · split at hn
    · cases hn
    · exact loop_succ hn

/-- The loop of an update, with more fuel. -/
theorem UpdateExecutor.loop_succ {table : TableInfo} {updateExprs : List Expression}
    {oids : List Nat} {fuel : Nat} :
    ∀ {scan : ScanExecutor} {db : Database} {updateCount : Int32} {r : Int32 × Database},
      loop table updateExprs oids fuel scan db updateCount = some r →
      loop table updateExprs oids (fuel + 1) scan db updateCount = some r := by
  induction fuel with
  | zero =>
    intro scan db updateCount r h
    cases h
  | succ fuel ih =>
    intro scan db updateCount r h
    rw [loop] at h ⊢
    split at h
    · cases h
    · exact h
    · split at h
      · cases h
      · exact ih h

/-- **An update has one result.** -/
theorem UpdateExecutor.next_unique {updateExprs : List Expression} {plan : ScanPlan}
    {db : Database} {toid : Nat} {oids : List Nat} {fuel fuel' : Nat} {r r' : Int32 × Database}
    (h : next updateExprs fuel plan db toid oids = some r)
    (h' : next updateExprs fuel' plan db toid oids = some r') : r = r' := by
  refine @unique_of_succ _ (fun fuel => next updateExprs fuel plan db toid oids)
    (fun {n r} hn => ?_) _ _ _ _ h h'
  rw [next] at hn ⊢
  split at hn
  · cases hn
  · split at hn
    · cases hn
    · exact loop_succ hn

/-! ## The bytes of the rows -/

/-- The row that is read from its bytes, at whatever RID. -/
def decodeRow (schema : Schema) (bytes : List UInt8) : Tuple :=
  (ScanExecutor.rebuild schema {} bytes).getD {}

/-- The rows of a table are read from the bytes of its live tuples. -/
theorem selected_eq_tuples {schema : Schema} {chain : HeapChain} {rids : List RID}
    {rows : List Tuple} (hlive : ∀ rid ∈ rids, chain.tupleAt rid ≠ none)
    (h : selected schema none chain rids = some rows) :
    rows = (rids.filterMap chain.tupleAt).map (decodeRow schema) := by
  induction rids generalizing rows with
  | nil => exact (Option.some.inj h).symm
  | cons rid rids ih =>
    obtain ⟨bytes, hbytes⟩ := Option.ne_none_iff_exists'.mp (hlive rid List.mem_cons_self)
    rw [selected, hbytes, Option.getD_some] at h
    split at h
    · cases h
    · rename_i tuple hread
      obtain ⟨rest, hrest, rfl⟩ := Option.map_eq_some_iff.mp h
      rw [List.filterMap_cons_some hbytes, List.map_cons, decodeRow, rebuild_rid _ {} rid, hread,
        Option.getD_some, ← ih (fun r hr => hlive r (List.mem_cons_of_mem _ hr)) hrest]

/-- A row of fixed columns is read back. -/
theorem decodeRow_of_rowOf {table : TableInfo} (hfixed : FixedColumns table.schema.given)
    {tuple : Tuple} (hrow : RowOf table tuple) : decodeRow table.schema tuple.data = tuple := by
  rw [decodeRow, rebuild_of_rowOf hfixed hrow, Option.getD_some]

/-- The rows of a table of the database. -/
theorem HasRows.eq_tuples {db : Database} {chains : Nat → HeapChain} {rows : Nat → List Tuple}
    (hrows : HasRows db rows) (hinv : DbInv db chains) {oid : Nat} {table : TableInfo}
    (htable : db.catalog.getTable oid = some table) :
    rows oid = (chains oid).tuples.map (decodeRow table.schema) :=
  selected_eq_tuples (fun rid hrid =>
    (HeapChain.mem_liveRids (hinv.heap htable).nodup rid).mp hrid) (hrows.selected_eq hinv htable)

/-! ## Bags -/

/-- **The bags of the tables of a database.** An oid that no table has stands for nothing. -/
structure Stores (db : Database) (tables : Nat → Multiset Tuple) : Prop where
  rows : ∀ oid table, db.catalog.getTable oid = some table → ∃ out,
    IsTable db table out ∧ (out : Multiset Tuple) = tables oid
  unused : ∀ oid, db.catalog.getTable oid = none → tables oid = 0
  columns : ∀ {oid table}, db.catalog.getTable oid = some table → table.schema.given ≠ []

/-- The bags as lists of rows. -/
theorem Stores.exists_rows {db : Database} {tables : Nat → Multiset Tuple} (h : Stores db tables) :
    ∃ rows, HasRows db rows ∧ (fun oid => (rows oid : Multiset Tuple)) = tables := by
  have hall : ∀ oid, ∃ out : List Tuple, (∀ table, db.catalog.getTable oid = some table →
      IsTable db table out) ∧ (out : Multiset Tuple) = tables oid := by
    intro oid
    cases htable : db.catalog.getTable oid with
    | none => exact ⟨[], fun table h' => (by cases h'), (h.unused oid htable).symm⟩
    | some table =>
      obtain ⟨out, hout, hbag⟩ := h.rows oid table htable
      exact ⟨out, fun table' h => Option.some.inj h ▸ hout, hbag⟩
  choose rows hrows using hall
  exact ⟨rows, fun oid table htable => (hrows oid).1 table htable, funext fun oid => (hrows oid).2⟩

/-- Rows with the same tables. -/
theorem Stores.of_rows {db db' : Database} {tables tables' : Nat → Multiset Tuple}
    (h : Stores db tables) (htables : db'.catalog.tables = db.catalog.tables)
    {rows : Nat → List Tuple} (hrows : HasRows db' rows)
    (hbags : ∀ oid, db.catalog.getTable oid ≠ none → (rows oid : Multiset Tuple) = tables' oid)
    (hunused : ∀ oid, db.catalog.getTable oid = none → tables' oid = tables oid) :
    Stores db' tables' := by
  have hget : ∀ oid, db'.catalog.getTable oid = db.catalog.getTable oid := fun oid => by
    rw [Catalog.getTable, htables, Catalog.getTable]
  refine ⟨fun oid table ht => ⟨rows oid, hrows oid table ht, hbags oid ?_⟩, fun oid ht => ?_,
    fun {oid table} ht => ?_⟩
  · rw [← hget, ht]
    exact Option.some_ne_none table
  · rw [hget] at ht
    exact (hunused oid ht).trans (h.unused oid ht)
  · rw [hget] at ht
    exact h.columns ht

section Steps

variable {db : Database} {chains : Nat → HeapChain} {tables : Nat → Multiset Tuple}
  {c : Catalog} {pages : PageStore TablePage}

/-- A new table is empty. -/
theorem Stores.createTable (h : Stores db tables) (hinv : DbInv db chains)
    (hroom : db.catalog.nextTableOid ≠ 0) {name : String} {schema : Schema}
    (hne : schema.given ≠ []) {r : Option Nat}
    (hcreate : db.catalog.createTable db.pages name schema = (r, c, pages)) :
    Stores ⟨c, pages⟩ tables := by
  rw [Catalog.createTable] at hcreate
  split at hcreate
  · obtain ⟨-, hcreate⟩ := Prod.mk.inj hcreate
    obtain ⟨rfl, rfl⟩ := Prod.mk.inj hcreate
    exact h
  · obtain ⟨hrep, -, -, hnext, hothers⟩ := TableHeap.create_spec hinv.store
    obtain ⟨-, hcreate⟩ := Prod.mk.inj hcreate
    obtain ⟨rfl, rfl⟩ := Prod.mk.inj hcreate
    have hnone : db.catalog.getTable db.catalog.nextTableOid = none := by
      by_contra hsome
      obtain ⟨table, htable⟩ := Option.ne_none_iff_exists'.mp hsome
      exact absurd (hinv.catalog.table_lt htable hroom) (Nat.lt_irrefl _)
    refine ⟨fun oid table ht => ?_, fun oid ht => ?_, fun {oid table} ht => ?_⟩
    · rw [Catalog.getTable, lookup_insert_eq] at ht
      split at ht
      · rename_i hoid
        obtain rfl := Option.some.inj ht
        subst hoid
        exact ⟨[], ⟨_, hrep, rfl⟩, (h.unused _ hnone).symm⟩
      · obtain ⟨out, ⟨chain, hchain, hselected⟩, hbag⟩ := h.rows oid table ht
        refine ⟨out, ⟨chain, hchain.congr (fun e he => hothers e.1 (hchain.allocated e he).2) ?_,
          hselected⟩, hbag⟩
        show db.pages.nextPageId ≤ (TableHeap.create db.pages).2.nextPageId
        rw [hnext]
        exact Int.le_of_lt (Int.lt_succ _)
    · rw [Catalog.getTable, lookup_insert_eq] at ht
      split at ht
      · cases ht
      · exact h.unused oid ht
    · rw [Catalog.getTable, lookup_insert_eq] at ht
      split at ht
      · obtain rfl := Option.some.inj ht
        exact hne
      · exact h.columns ht

/-- Nothing changes where tables and pages are the same. -/
theorem Stores.congr (h : Stores db tables) (htables : c.tables = db.catalog.tables) :
    Stores ⟨c, db.pages⟩ tables := by
  obtain ⟨rows, hrows, hbags⟩ := h.exists_rows
  have hrows' : HasRows ⟨c, db.pages⟩ rows := fun oid table ht => by
    rw [Catalog.getTable, htables] at ht
    exact hrows oid table ht
  exact h.of_rows htables hrows' (fun oid _ => congrFun hbags oid) fun _ _ => rfl

/-- An index changes neither tables nor pages. -/
theorem Stores.createIndex (h : Stores db tables) (hinv : DbInv db chains)
    {name tableName : String} {keyAttrs : List Nat} {r : Option Nat}
    (hcreate : db.catalog.createIndex db.pages name tableName keyAttrs = some (r, c, pages)) :
    Stores ⟨c, pages⟩ tables := by
  obtain ⟨-, rfl, rfl⟩ | ⟨info, columns, index, -, hinfo, -, -, hfill, rfl⟩ :=
    createIndex_cases hcreate
  · exact h
  · obtain ⟨toid, -, htable, -⟩ := hinv.catalog.getTableByName hinfo
    obtain ⟨index', hfill', -⟩ := hinv.fillIndex htable
      (.create ⟨columns⟩ name tableName db.catalog.nextIndexOid keyAttrs) rfl rfl
    rw [hfill] at hfill'
    obtain ⟨-, rfl⟩ := Prod.mk.inj (Option.some.inj hfill')
    exact h.congr rfl

theorem Stores.dropIndex (h : Stores db tables) {name tableName : String} {r : Bool}
    (hdrop : db.catalog.dropIndex name tableName = (r, c)) :
    Stores { db with catalog := c } tables := by
  obtain ⟨-, rfl, -⟩ | ⟨oid, -, -, -, -, htables, -⟩ := dropIndex_cases hdrop
  · exact h
  · exact h.congr htables

variable {toid : Nat} {table : TableInfo} {oids : List Nat}

/-- **One row of an insertion** joins the bag of the table. -/
theorem Stores.insertRow (h : Stores db tables) (hinv : DbInv db chains)
    (htable : db.catalog.getTable toid = some table)
    (hlists : ListsIndexes db.catalog table.name oids) {tuple : Tuple}
    (hrow : RowOf table tuple) (hid : db.pages.nextPageId < 2 ^ 31) {rid : RID}
    (hins : table.table.insertTuple db.pages tuple.data = some (some rid, pages))
    (hmaintain : maintain .insertEntry table.schema tuple rid oids db.catalog = some c) :
    Stores ⟨c, pages⟩ (Function.update tables toid (tables toid + {tuple})) := by
  obtain ⟨values, hvalues, htuple⟩ := hrow
  obtain ⟨⟨chains', hinv'⟩, htable', -⟩ :=
    hinv.insertRow htable hlists hvalues htuple hid hins hmaintain
  obtain ⟨rid', pages', chain, hins', hadds, hrep, -, hinserted⟩ :=
    (hinv.heap htable).insertTuple hinv.store hid ((hinv.heap htable).insertTuple_length_le hins)
  rw [hins] at hins'
  obtain ⟨rfl, rfl⟩ : rid = rid' ∧ pages = pages' := by simpa using hins'
  have htables := (maintained mapOnly_insertEntry hinv.catalog hlists hmaintain).tables
  obtain ⟨rows, hrows, hbags⟩ := h.exists_rows
  obtain ⟨rows', hrows'⟩ := hinv'.exists_hasRows
  refine h.of_rows htables hrows' (fun oid hoid => ?_) fun oid hoid => ?_
  · obtain ⟨t, ht⟩ := Option.ne_none_iff_exists'.mp hoid
    have ht' : c.getTable oid = some t := by
      rw [Catalog.getTable, htables]
      exact ht
    rw [hrows'.eq_tuples hinv' ht']
    by_cases heq : oid = toid
    · subst heq
      rw [htable] at ht
      obtain rfl := Option.some.inj ht
      -- the live tuples are those from before and the new one
      obtain rfl := hrep.unique (hinv'.heap ht')
      have hne : tuple.data ≠ [] := RowOf.data_ne_nil ⟨values, hvalues, htuple⟩ (h.columns htable)
      have hnew : ([tuple].map Tuple.data).filter (· ≠ []) = [tuple.data] := by simp [hne]
      have hgrown := (Grown.of_adds (hinv.heap htable) hadds).added.map (decodeRow table.schema)
      rw [hnew, List.map_append, List.map_singleton,
        decodeRow_of_rowOf (hinv.fixed htable) ⟨values, hvalues, htuple⟩] at hgrown
      rw [Function.update_self, ← congrFun hbags oid, hrows.eq_tuples hinv htable]
      exact Multiset.coe_eq_coe.mpr hgrown
    · have hsame : chains' oid = chains oid := by
        refine ((hinv.heap ht).congr (fun e he => ?_) hinserted.next_le).unique (hinv'.heap ht')
        exact hinserted.others e.1 ((hinv.heap ht).allocated e he).2 fun e' he' =>
          hinv.disjoint htable ht (Ne.symm heq) e' he' e he
      rw [Function.update_of_ne heq, ← congrFun hbags oid, hrows.eq_tuples hinv ht, hsame]
  · have hne : oid ≠ toid := by
      rintro rfl
      rw [htable] at hoid
      cases hoid
    rw [Function.update_of_ne hne]

/-- **The loop of an insertion** adds its rows to the bag and keeps the tables. The induction is on
the fuel. -/
theorem Stores.insertLoop {σ : Type} {child : Child σ} (hchild : child.ReadOnly) {fuel : Nat} :
    ∀ {state : σ} {db db' : Database} {chains : Nat → HeapChain}
      {tables : Nat → Multiset Tuple} {inserted rows : List Tuple},
      DbInv db chains → Stores db tables → db.catalog.getTable toid = some table →
      ListsIndexes db.catalog table.name oids →
      InsertExecutor.loop child table oids fuel state db inserted = some (rows, db') →
      (∀ t ∈ rows, RowOf table t) → db'.pages.nextPageId < 2 ^ 31 →
      ∃ added, rows = inserted ++ added ∧ db'.catalog.tables = db.catalog.tables ∧
        Stores db' (Function.update tables toid (tables toid + (added : Multiset Tuple))) := by
  induction fuel with
  | zero =>
    intro state db db' chains tables inserted rows _ _ _ _ h
    cases h
  | succ fuel ih =>
    intro state db db' chains tables inserted rows hinv hstores htable hlists h hrows hid
    obtain ⟨rfl, rfl⟩ | ⟨tuple, state', rid, pages, catalog, hins, hmaintain, h⟩ :=
      InsertExecutor.loop_cases hchild h
    · refine ⟨[], (List.append_nil _).symm, rfl, ?_⟩
      rw [Multiset.coe_nil, add_zero, Function.update_eq_self]
      exact hstores
    · obtain ⟨hmem, hnext⟩ := InsertExecutor.loop_grows hchild h
      have hrow := hrows tuple (hmem tuple (List.mem_append_right _ List.mem_cons_self))
      have hid' : db.pages.nextPageId < 2 ^ 31 :=
        Int.lt_of_le_of_lt (Int.le_trans (TableHeap.insertFrom_next_le hins) hnext) hid
      have hstores' := hstores.insertRow hinv htable hlists hrow hid' hins hmaintain
      obtain ⟨values, hvalues, htuple⟩ := hrow
      obtain ⟨⟨chains', hinv'⟩, htable', hlists'⟩ :=
        hinv.insertRow htable hlists hvalues htuple hid' hins hmaintain
      obtain ⟨added, rfl, htables, hadded⟩ := ih hinv' hstores' htable' hlists' h hrows hid
      have hkept := (maintained mapOnly_insertEntry hinv.catalog hlists hmaintain).tables
      refine ⟨tuple :: added, by simp, htables.trans hkept, ?_⟩
      rw [Function.update_self, Function.update_idem, add_assoc, Multiset.singleton_add,
        Multiset.cons_coe] at hadded
      exact hadded

/-- The bags after a statement that changed the rows of one table. -/
theorem Stores.update_rows {db' : Database} (h : Stores db tables)
    (htable : db.catalog.getTable toid = some table)
    (htables : db'.catalog.tables = db.catalog.tables) {rows : Nat → List Tuple}
    (hbags : (fun oid => (rows oid : Multiset Tuple)) = tables) {new : List Tuple}
    {bag : Multiset Tuple} (hnew : (new : Multiset Tuple) = bag)
    (hrows : HasRows db' (Function.update rows toid new)) :
    Stores db' (Function.update tables toid bag) := by
  refine h.of_rows htables hrows (fun oid _ => ?_) fun oid hoid => ?_
  · by_cases heq : oid = toid
    · subst heq
      rw [Function.update_self, Function.update_self, hnew]
    · rw [Function.update_of_ne heq, Function.update_of_ne heq]
      exact congrFun hbags oid
  · have hne : oid ≠ toid := by
      rintro rfl
      rw [htable] at hoid
      cases hoid
    rw [Function.update_of_ne hne]

end Steps

/-! ## Runs -/

/-- **Runs of statements** on a new database, with the bags of its tables. A table has a column;
the child of an insertion only reads, and yields rows of the table; the predicate of a deletion or
an update does not throw on the rows that are there, and the pages have room for the new tuples of
an update. -/
inductive StatementRun (s₀ : PageStore TablePage) :
    Database → (Nat → Multiset Tuple) → Prop where
  | start : StatementRun s₀ ⟨{}, s₀⟩ fun _ => 0
  | createTable {db : Database} {tables : Nat → Multiset Tuple} {name : String} {schema : Schema}
      {r : Option Nat} {c : Catalog} {pages : PageStore TablePage} :
      StatementRun s₀ db tables → OidLeft db.catalog.nextTableOid → FixedColumns schema.given →
      schema.given ≠ [] →
      db.catalog.createTable db.pages name schema = (r, c, pages) →
      StatementRun s₀ ⟨c, pages⟩ tables
  | createIndex {db : Database} {tables : Nat → Multiset Tuple} {name tableName : String}
      {keyAttrs : List Nat} {r : Option Nat} {c : Catalog} {pages : PageStore TablePage} :
      StatementRun s₀ db tables → OidLeft db.catalog.nextIndexOid →
      db.catalog.createIndex db.pages name tableName keyAttrs = some (r, c, pages) →
      StatementRun s₀ ⟨c, pages⟩ tables
  | dropIndex {db : Database} {tables : Nat → Multiset Tuple} {name tableName : String} {r : Bool}
      {c : Catalog} :
      StatementRun s₀ db tables → db.catalog.dropIndex name tableName = (r, c) →
      StatementRun s₀ { db with catalog := c } tables
  | insert {σ : Type} {child : Child σ} {fuel toid : Nat} {state : σ} {db db' : Database}
      {tables : Nat → Multiset Tuple} {table : TableInfo} {oids : List Nat} {rows : List Tuple} :
      StatementRun s₀ db tables → child.ReadOnly → db.catalog.getTable toid = some table →
      oids.Perm (db.catalog.getTableIndexes table.name) →
      InsertExecutor.next child fuel state db toid oids = some (rows, db') →
      (∀ tuple ∈ rows, RowOf table tuple) → db'.pages.nextPageId < 2 ^ 31 →
      StatementRun s₀ db' (Function.update tables toid (tables toid + (rows : Multiset Tuple)))
  | delete {fuel toid : Nat} {n : Int32} {db db' : Database} {tables : Nat → Multiset Tuple}
      {table : TableInfo} {oids order : List Nat} {predicate : Option Expr} {node : ScanNode} :
      StatementRun s₀ db tables → db.catalog.getTable toid = some table →
      oids.Perm (db.catalog.getTableIndexes table.name) → NoNullKey predicate →
      (∀ tuple ∈ tables toid, ∃ b,
        ScanExecutor.selects (predicate.map Expr.evaluate) tuple table.schema = some b) →
      order.Perm (db.catalog.getTableIndexes table.name) →
      node = .seqScan toid predicate ∨
        node = optimizeSeqScanToIndexScan db.catalog order (.seqScan toid predicate) →
      DeleteExecutor.next fuel node.plan db toid oids = some (n, db') →
      StatementRun s₀ db' (Function.update tables toid ((tables toid).filter fun tuple =>
        isSelected table (predicate.map Expr.evaluate) tuple = false))
  | update {fuel toid : Nat} {n : Int32} {db db' : Database} {tables : Nat → Multiset Tuple}
      {table : TableInfo} {oids order : List Nat} {predicate : Option Expr}
      {updateExprs : List Expression} {node : ScanNode} :
      StatementRun s₀ db tables → db.catalog.getTable toid = some table →
      oids.Perm (db.catalog.getTableIndexes table.name) → NoNullKey predicate →
      UpdatesRows table (predicate.map Expr.evaluate) updateExprs (tables toid) →
      (∀ chain, HeapRep table.table db.pages chain →
        PagesHaveRoom table (predicate.map Expr.evaluate) updateExprs chain db.pages) →
      order.Perm (db.catalog.getTableIndexes table.name) →
      node = .seqScan toid predicate ∨
        node = optimizeSeqScanToIndexScan db.catalog order (.seqScan toid predicate) →
      UpdateExecutor.next updateExprs fuel node.plan db toid oids = some (n, db') →
      StatementRun s₀ db' (Function.update tables toid
        ((tables toid).map (updatedRow table (predicate.map Expr.evaluate) updateExprs)))

/-- Before the first statement there is no table. -/
theorem Stores.start (s₀ : PageStore TablePage) : Stores ⟨{}, s₀⟩ fun _ => 0 where
  rows := fun _ _ h => by simp [Catalog.getTable] at h
  unused := fun _ _ => rfl
  columns := fun h => by simp [Catalog.getTable] at h

/-- **Every run stores its bags.** -/
theorem StatementRun.stores {s₀ : PageStore TablePage} (hok : s₀.StoreOk) {db : Database}
    {tables : Nat → Multiset Tuple} (hrun : StatementRun s₀ db tables) :
    (∃ chains, DbInv db chains) ∧ Stores db tables := by
  induction hrun with
  | start => exact ⟨⟨_, .start hok⟩, .start s₀⟩
  | createTable _ hroom hfixed hne h ih =>
    obtain ⟨⟨chains, hinv⟩, hstores⟩ := ih
    exact ⟨hinv.createTable hroom hfixed h, hstores.createTable hinv hroom hne h⟩
  | createIndex _ hroom h ih =>
    obtain ⟨⟨chains, hinv⟩, hstores⟩ := ih
    exact ⟨⟨chains, hinv.createIndex hroom h⟩, hstores.createIndex hinv h⟩
  | dropIndex _ h ih =>
    obtain ⟨⟨chains, hinv⟩, hstores⟩ := ih
    exact ⟨⟨chains, hinv.dropIndex h⟩, hstores.dropIndex h⟩
  | insert _ hchild htable hperm h hrows hid ih =>
    obtain ⟨⟨chains, hinv⟩, hstores⟩ := ih
    have hlists := hinv.catalog.listsIndexes hperm
    simp only [InsertExecutor.next, htable] at h
    obtain ⟨added, rfl, -, hadded⟩ := hstores.insertLoop hchild hinv htable hlists h hrows hid
    exact ⟨hinv.insertLoop hchild htable hlists h hrows hid, hadded⟩
  | delete _ htable hoids hnull hdefined horder hnode h ih =>
    obtain ⟨⟨chains, hinv⟩, hstores⟩ := ih
    obtain ⟨rows, hrows, rfl⟩ := hstores.exists_rows
    obtain ⟨db', chains', hnext, hinv', htables, hleft⟩ := hinv.deleteNext hrows htable hoids
      (childOf_node (hinv.scanState htable) hnull horder hnode) hdefined (Nat.lt_succ_self _)
    obtain ⟨-, rfl⟩ := Prod.mk.inj (DeleteExecutor.next_unique h hnext)
    refine ⟨⟨chains', hinv'⟩, hstores.update_rows htable htables rfl ?_ hleft⟩
    rw [Multiset.filter_coe]
    congr 1
    exact List.filter_congr fun tuple _ => by simp
  | update _ htable hoids hnull hupdates hroom horder hnode h ih =>
    obtain ⟨⟨chains, hinv⟩, hstores⟩ := ih
    obtain ⟨rows, hrows, rfl⟩ := hstores.exists_rows
    obtain ⟨db', chains', hnext, hinv', htables, hleft⟩ := hinv.updateNext hrows htable hoids
      (childOf_node (hinv.scanState htable) hnull horder hnode) hupdates
      (hroom _ (hinv.heap htable)) (Nat.lt_succ_self _)
    obtain ⟨-, rfl⟩ := Prod.mk.inj (UpdateExecutor.next_unique h hnext)
    exact ⟨⟨chains', hinv'⟩, hstores.update_rows htable htables rfl rfl hleft⟩

/-- The tables of a run have their oids. -/
theorem StatementRun.tableOids {s₀ : PageStore TablePage} (hok : s₀.StoreOk) {db : Database}
    {tables : Nat → Multiset Tuple} (hrun : StatementRun s₀ db tables) :
    db.catalog.TableOids := by
  induction hrun with
  | start => exact Catalog.TableOids.empty
  | createTable _ _ _ _ h ih => exact ih.createTable h
  | createIndex _ _ h ih =>
    obtain ⟨-, rfl, -⟩ | ⟨info, columns, index, -, -, -, -, -, rfl⟩ := createIndex_cases h
    · exact ih
    · exact ih.of_tables rfl
  | dropIndex _ h ih =>
    obtain ⟨-, rfl, -⟩ | ⟨oid, -, -, -, -, htables, -⟩ := dropIndex_cases h
    · exact ih
    · exact ih.of_tables htables
  | insert hrun hchild htable hperm h hrows hid ih =>
    obtain ⟨⟨chains, hinv⟩, hstores⟩ := hrun.stores hok
    simp only [InsertExecutor.next, htable] at h
    obtain ⟨added, -, htables, -⟩ := hstores.insertLoop hchild hinv htable
      (hinv.catalog.listsIndexes hperm) h hrows hid
    exact ih.of_tables htables
  | delete hrun htable hoids hnull hdefined horder hnode h ih =>
    obtain ⟨⟨chains, hinv⟩, hstores⟩ := hrun.stores hok
    obtain ⟨rows, hrows, rfl⟩ := hstores.exists_rows
    obtain ⟨db', chains', hnext, -, htables, -⟩ := hinv.deleteNext hrows htable hoids
      (childOf_node (hinv.scanState htable) hnull horder hnode) hdefined (Nat.lt_succ_self _)
    obtain ⟨-, rfl⟩ := Prod.mk.inj (DeleteExecutor.next_unique h hnext)
    exact ih.of_tables htables
  | update hrun htable hoids hnull hupdates hroom horder hnode h ih =>
    obtain ⟨⟨chains, hinv⟩, hstores⟩ := hrun.stores hok
    obtain ⟨rows, hrows, rfl⟩ := hstores.exists_rows
    obtain ⟨db', chains', hnext, -, htables, -⟩ := hinv.updateNext hrows htable hoids
      (childOf_node (hinv.scanState htable) hnull horder hnode) hupdates
      (hroom _ (hinv.heap htable)) (Nat.lt_succ_self _)
    obtain ⟨-, rfl⟩ := Prod.mk.inj (UpdateExecutor.next_unique h hnext)
    exact ih.of_tables htables

end OneBase
