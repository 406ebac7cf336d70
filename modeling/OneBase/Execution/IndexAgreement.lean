import OneBase.Catalog.Histories
import OneBase.Execution.DbInvariant
import OneBase.Storage.HeapUpdate

/-!
# Indexes agree with their tables

Runs of `CreateTable`, `CreateIndex`, `DropIndex`, insertions and deletions on
tables of INTEGER and BOOLEAN columns. An insertion may take its rows from a scan
of the same table; a deletion does.

- `DbInv.insertLoop`, `DbInv.deleteLoop`: the loops of the two executors.
- `DbInv.fillIndex`: a new index is filled from its table.
- `DbRun`: the runs.
- `dbRun_indexes_agree`: the indexes agree with their tables in every run in which the oids do not
  wrap around.
- `dbRun_indexes_disagree`: a run in which they do.
-/

namespace OneBase

open PageStore

/-! ## Whole statements -/

/-- A child that only reads. -/
def Child.ReadOnly {σ : Type} (child : Child σ) : Prop :=
  ∀ {state s r state' s'}, child.next state s = some (r, state', s') → s' = s

/-- One turn of the loop of an insertion: the child has ended, or a row goes into the
table and the indexes. -/
theorem InsertExecutor.loop_cases {σ : Type} {child : Child σ} (hchild : child.ReadOnly)
    {table : TableInfo} {oids : List Nat} {fuel : Nat} {state : σ} {db db' : Database}
    {inserted rows : List Tuple}
    (h : loop child table oids (fuel + 1) state db inserted = some (rows, db')) :
    (rows = inserted ∧ db' = db) ∨
      ∃ tuple state' rid pages catalog,
        table.table.insertTuple db.pages tuple.data = some (some rid, pages) ∧
        maintain .insertEntry table.schema tuple rid oids db.catalog = some catalog ∧
        loop child table oids fuel state' ⟨catalog, pages⟩ (inserted ++ [tuple]) =
          some (rows, db') := by
  rw [loop] at h
  split at h
  · cases h
  · rename_i state' pages hnext
    obtain rfl := hchild hnext
    obtain ⟨rfl, rfl⟩ := Prod.mk.inj (Option.some.inj h)
    exact .inl ⟨rfl, rfl⟩
  · rename_i tuple rid₀ state' pages hnext
    obtain rfl := hchild hnext
    split at h
    · rename_i rid pages' hins
      split at h
      · cases h
      · rename_i catalog hmaintain
        exact .inr ⟨tuple, state', rid, pages', catalog, hins, hmaintain, h⟩
    · cases h

/-- The loop only adds rows, and gives no page id back. -/
theorem InsertExecutor.loop_grows {σ : Type} {child : Child σ} (hchild : child.ReadOnly)
    {table : TableInfo} {oids : List Nat} {fuel : Nat} :
    ∀ {state : σ} {db db' : Database} {inserted rows : List Tuple},
      loop child table oids fuel state db inserted = some (rows, db') →
      (∀ t ∈ inserted, t ∈ rows) ∧ db.pages.nextPageId ≤ db'.pages.nextPageId := by
  induction fuel with
  | zero =>
    intro state db db' inserted rows h
    cases h
  | succ fuel ih =>
    intro state db db' inserted rows h
    obtain ⟨rfl, rfl⟩ | ⟨tuple, state', rid, pages, catalog, hins, -, h⟩ := loop_cases hchild h
    · exact ⟨fun _ ht => ht, Int.le_refl _⟩
    · obtain ⟨hrows, hnext⟩ := ih h
      exact ⟨fun t ht => hrows t (List.mem_append_left _ ht),
        Int.le_trans (TableHeap.insertFrom_next_le hins) hnext⟩

/-- A row as the child of an insertion into the table yields it. -/
def RowOf (table : TableInfo) (tuple : Tuple) : Prop :=
  ∃ values, Row table.schema.given values ∧ Tuple.ofValues values = some tuple

/-- The scan is over the table, and its index is one of the table. -/
def ScanPlan.OnTable (c : Catalog) (toid : Nat) (table : TableInfo) : ScanPlan → Prop
  | .seqScan oid _ => oid = toid
  | .indexScan oid ioid _ _ =>
    oid = toid ∧ ∀ index, c.getIndex ioid = some index → index.tableName = table.name

/-- A scan of the table starts with live tuples pending. -/
theorem TableOk.init {db : Database} {toid : Nat} {table : TableInfo} {chain : HeapChain}
    (hok : TableOk db toid table chain) {plan : ScanPlan} {scan : ScanExecutor}
    {pages : PageStore TablePage}
    (hinit : ScanExecutor.init db plan = some (scan, pages))
    (hplan : plan.OnTable db.catalog toid table) :
    pages = db.pages ∧ scan.tableInfo = table ∧ ∃ rids, Pending chain scan.cursor rids := by
  have htable := hok.getTable
  have hrep := hok.heap
  cases plan with
  | seqScan oid predicate =>
    obtain rfl : oid = toid := hplan
    simp only [ScanExecutor.init, htable, hrep.begin] at hinit
    obtain ⟨rfl, rfl⟩ := Prod.mk.inj (Option.some.inj hinit)
    exact ⟨rfl, rfl, chain.liveRids, .seqScan (List.nil_append _).symm⟩
  | indexScan oid ioid lookupKey predicate =>
    obtain ⟨rfl, hname⟩ : oid = toid ∧ _ := hplan
    simp only [ScanExecutor.init, htable] at hinit
    split at hinit
    · rename_i t index ht hindex
      obtain rfl := Option.some.inj ht
      split at hinit
      · cases hinit
      · rename_i rids hlookup
        obtain ⟨rfl, rfl⟩ := Prod.mk.inj (Option.some.inj hinit)
        refine ⟨rfl, rfl, rids, ?_⟩
        unfold ScanExecutor.lookup at hlookup
        split at hlookup
        · rename_i hpoint
          obtain ⟨attr, hattr, -⟩ :=
            hok.catalog.point htable hindex (hname index hindex) hpoint
          have hagrees := hok.agrees hindex (hname index hindex) hpoint hattr
          split at hlookup
          · obtain rfl := Option.some.inj hlookup
            exact .indexScan List.nodup_nil fun _ h => absurd h List.not_mem_nil
          · cases hlookup
          · split at hlookup
            · -- the RIDs under a key are live tuples, each once
              obtain ⟨key, -, rfl⟩ := Option.map_eq_some_iff.mp hlookup
              refine .indexScan (List.nodup_iff_count_le_one.mpr fun r => ?_) fun r hr => ?_
              · rw [hagrees.count]
                split
                · exact Nat.le_refl _
                · exact Nat.zero_le _
              · have hpos := List.count_pos_iff.mpr hr
                rw [hagrees.count] at hpos
                split at hpos
                · rename_i hkey
                  refine (HeapChain.mem_liveRids hrep.nodup r).mpr fun hnone => ?_
                  simp [keyAt, hnone] at hkey
                · exact absurd hpos (Nat.lt_irrefl _)
            · obtain rfl := Option.some.inj hlookup
              exact .indexScan List.nodup_nil fun _ h => absurd h List.not_mem_nil
        · obtain rfl := Option.some.inj hlookup
          exact .indexScan List.nodup_nil fun _ h => absurd h List.not_mem_nil
    · cases hinit

namespace DbInv

variable {db db' : Database} {chains : Nat → HeapChain} {toid : Nat} {table : TableInfo}
  {oids : List Nat}

/-- **The loop of an insertion.** -/
theorem insertLoop {σ : Type} {child : Child σ} (hchild : child.ReadOnly) {fuel : Nat} :
    ∀ {state : σ} {db : Database} {chains : Nat → HeapChain} {inserted rows : List Tuple},
      DbInv db chains → db.catalog.getTable toid = some table →
      ListsIndexes db.catalog table.name oids →
      InsertExecutor.loop child table oids fuel state db inserted = some (rows, db') →
      (∀ t ∈ rows, RowOf table t) → db'.pages.nextPageId < 2 ^ 31 →
      ∃ chains', DbInv db' chains' := by
  induction fuel with
  | zero =>
    intro state db chains inserted rows _ _ _ h
    cases h
  | succ fuel ih =>
    intro state db chains inserted rows hinv htable hlists h hrows hid
    obtain ⟨-, rfl⟩ | ⟨tuple, state', rid, pages, catalog, hins, hmaintain, h⟩ :=
      InsertExecutor.loop_cases hchild h
    · exact ⟨chains, hinv⟩
    · obtain ⟨hmem, hnext⟩ := InsertExecutor.loop_grows hchild h
      obtain ⟨values, hrow, htuple⟩ :=
        hrows tuple (hmem tuple (List.mem_append_right _ List.mem_cons_self))
      have hid' : db.pages.nextPageId < 2 ^ 31 :=
        Int.lt_of_le_of_lt (Int.le_trans (TableHeap.insertFrom_next_le hins) hnext) hid
      obtain ⟨⟨chains', hinv'⟩, htable', hlists'⟩ :=
        hinv.insertRow htable hlists hrow htuple hid' hins hmaintain
      exact ih hinv' htable' hlists' h hrows hid

/-- **The loop of a deletion.** The scan is over the table whose tuples it deletes. -/
theorem deleteLoop {fuel : Nat} :
    ∀ {scan : ScanExecutor} {db : Database} {chains : Nat → HeapChain} {rids : List RID}
      {deleted n : Int32},
      DbInv db chains → db.catalog.getTable toid = some table →
      ListsIndexes db.catalog table.name oids → scan.tableInfo = table →
      Pending (chains toid) scan.cursor rids →
      DeleteExecutor.loop table oids fuel scan db deleted = some (n, db') →
      ∃ chains', DbInv db' chains' := by
  induction fuel with
  | zero =>
    intro scan db chains rids deleted n _ _ _ _ _ h
    cases h
  | succ fuel ih =>
    rintro scan db chains rids deleted n hinv htable hlists rfl hpending h
    rw [DeleteExecutor.loop] at h
    split at h
    · cases h
    · rename_i cursor pages hnext
      obtain ⟨rfl, -⟩ := ScanExecutor.next_spec (hinv.heap htable) hpending hnext
      obtain ⟨-, rfl⟩ := Prod.mk.inj (Option.some.inj h)
      exact ⟨chains, hinv⟩
    · rename_i tuple rid cursor pages hnext
      obtain ⟨rfl, hyields⟩ := ScanExecutor.next_spec (hinv.heap htable) hpending hnext
      obtain ⟨rids', bytes, hpending', -, hnotin, hlive, htuple⟩ := hyields tuple rid rfl
      split at h
      · cases h
      · rename_i catalog hmaintain
        obtain ⟨hinv', htable', hlists'⟩ := hinv.deleteRow htable hlists hlive htuple hmaintain
        have hrest : Pending (Function.update chains toid ((chains toid).deleteAt rid) toid)
            ({ scan with cursor } : ScanExecutor).cursor rids' := by
          rw [Function.update_self]
          exact hpending'.deleteAt hnotin
        have hscan : ({ scan with cursor } : ScanExecutor).tableInfo = scan.tableInfo := rfl
        exact ih hinv' htable' hlists' hscan hrest h

end DbInv

/-! ## Tables and indexes -/

namespace DbInv

variable {db : Database} {chains : Nat → HeapChain}

/-- **A new table.** -/
theorem createTable (hinv : DbInv db chains) (hroom : db.catalog.nextTableOid ≠ 0)
    {name : String} {schema : Schema} (hfixed : FixedColumns schema.given) {r : Option Nat}
    {c : Catalog}
    {pages : PageStore TablePage}
    (h : db.catalog.createTable db.pages name schema = (r, c, pages)) :
    ∃ chains', DbInv ⟨c, pages⟩ chains' := by
  have hok := hinv.catalog.createTable hroom h
  rw [Catalog.createTable] at h
  split at h
  · obtain ⟨-, h⟩ := Prod.mk.inj h
    obtain ⟨rfl, rfl⟩ := Prod.mk.inj h
    exact ⟨chains, hinv⟩
  · rename_i hnew
    obtain ⟨hrep, hstore, -, hnext, hothers⟩ := TableHeap.create_spec hinv.store
    obtain ⟨-, h⟩ := Prod.mk.inj h
    obtain ⟨rfl, rfl⟩ := Prod.mk.inj h
    have hnone : db.catalog.tableNames.lookup name = none := AList.lookup_eq_none.mpr hnew
    -- a table of the new catalog is the new one or one of the old
    have hcases : ∀ {oid t}, Catalog.getTable { db.catalog with
          nextTableOid := nextOid db.catalog.nextTableOid
          tables := db.catalog.tables.insert db.catalog.nextTableOid
            ⟨schema, name, (TableHeap.create db.pages).1, db.catalog.nextTableOid⟩
          tableNames := db.catalog.tableNames.insert name db.catalog.nextTableOid } oid = some t →
        (oid = db.catalog.nextTableOid ∧
          t = ⟨schema, name, (TableHeap.create db.pages).1, db.catalog.nextTableOid⟩) ∨
        (oid ≠ db.catalog.nextTableOid ∧ db.catalog.getTable oid = some t) := by
      intro oid t ht
      rw [Catalog.getTable, lookup_insert_eq] at ht
      split at ht
      · rename_i heq
        exact .inl ⟨heq, (Option.some.inj ht).symm⟩
      · rename_i hne
        exact .inr ⟨hne, ht⟩
    have hpage : ∀ {oid t}, db.catalog.getTable oid = some t → ∀ e ∈ chains oid,
        e.1 < db.pages.nextPageId := fun ht e he => ((hinv.heap ht).allocated e he).2
    refine ⟨Function.update chains db.catalog.nextTableOid [(db.pages.nextPageId, [])], ?_⟩
    constructor
    case catalog => exact hok
    case store => exact hstore
    case heap =>
      intro oid t ht
      obtain ⟨rfl, rfl⟩ | ⟨hne, ht⟩ := hcases ht
      · rw [Function.update_self]
        exact hrep
      · rw [Function.update_of_ne hne]
        refine (hinv.heap ht).congr (fun e he => hothers e.1 (hpage ht e he)) ?_
        show db.pages.nextPageId ≤ (TableHeap.create db.pages).2.nextPageId
        rw [hnext]
        exact Int.le_of_lt (Int.lt_succ _)
    case disjoint =>
      intro oid₁ oid₂ t₁ t₂ ht₁ ht₂ hne e₁ he₁ e₂ he₂
      obtain ⟨rfl, -⟩ | ⟨hne₁, ht₁⟩ := hcases ht₁
      · obtain ⟨rfl, -⟩ | ⟨hne₂, ht₂⟩ := hcases ht₂
        · exact absurd rfl hne
        · rw [Function.update_self] at he₁
          rw [Function.update_of_ne hne₂] at he₂
          obtain rfl := List.mem_singleton.mp he₁
          exact Ne.symm (Int.ne_of_lt (hpage ht₂ e₂ he₂))
      · rw [Function.update_of_ne hne₁] at he₁
        obtain ⟨rfl, -⟩ | ⟨hne₂, ht₂⟩ := hcases ht₂
        · rw [Function.update_self] at he₂
          obtain rfl := List.mem_singleton.mp he₂
          exact Int.ne_of_lt (hpage ht₁ e₁ he₁)
        · rw [Function.update_of_ne hne₂] at he₂
          exact hinv.disjoint ht₁ ht₂ hne e₁ he₁ e₂ he₂
    case fixed =>
      intro oid t ht
      obtain ⟨-, rfl⟩ | ⟨-, ht⟩ := hcases ht
      · exact hfixed
      · exact hinv.fixed ht
    case rows =>
      intro oid t rid bytes ht hlive
      obtain ⟨rfl, -⟩ | ⟨hne, ht⟩ := hcases ht
      · rw [Function.update_self] at hlive
        simp [HeapChain.tupleAt] at hlive
      · rw [Function.update_of_ne hne] at hlive
        exact hinv.rows ht hlive
    case agrees =>
      intro oid t ioid index attr ht hindex hname hpoint hattr
      obtain ⟨rfl, rfl⟩ | ⟨hne, ht⟩ := hcases ht
      · -- no index has the name of the new table yet
        obtain ⟨toid, t, hlookup, -⟩ := hinv.catalog.index_table hindex
        rw [hname, hnone] at hlookup
        cases hlookup
      · rw [Function.update_of_ne hne]
        exact hinv.agrees ht hindex hname hpoint hattr

/-- The loop of `CreateIndex` enters every live tuple under its key. -/
theorem buildFrom (hinv : DbInv db chains) {toid : Nat} {table : TableInfo}
    (htable : db.catalog.getTable toid = some table) {attr : Nat}
    (htype : (table.schema.getColumn attr).map Column.type = some .integer) :
    ∀ {rids front : List RID} {fuel : Nat} {index : IndexInfo},
      (chains toid).liveRids = front ++ rids → rids.length < fuel →
      Agrees index (fun r => if r ∈ front then keyAt table.schema attr (chains toid) r else none) →
      ∃ index', Catalog.buildFrom table.schema attr fuel db.pages
          (rids.head?.getD TableHeap.endRid) index = some (index', db.pages) ∧
        Agrees index' (keyAt table.schema attr (chains toid)) := by
  have hrep := hinv.heap htable
  intro rids
  induction rids with
  | nil =>
    intro front fuel index hsplit hfuel hagrees
    obtain ⟨fuel, rfl⟩ := Nat.exists_eq_succ_of_ne_zero (Nat.ne_of_gt hfuel)
    refine ⟨index, by simp [Catalog.buildFrom], hagrees.congr fun r => ?_⟩
    rw [List.append_nil] at hsplit
    split
    · rfl
    · rename_i hnotin
      rw [← hsplit, HeapChain.mem_liveRids hrep.nodup, not_not] at hnotin
      simp [keyAt, hnotin]
  | cons rid rids ih =>
    intro front fuel index hsplit hfuel hagrees
    obtain ⟨fuel, rfl⟩ := Nat.exists_eq_succ_of_ne_zero (Nat.ne_of_gt (Nat.zero_lt_of_lt hfuel))
    obtain ⟨bytes, hlive⟩ := hrep.mem_tupleAt hsplit
    obtain ⟨key, hread, hkeyAt⟩ := hinv.keyAt_of_live htable htype hlive
    have hnotin : rid ∉ front := by
      have hnodup := hrep.nodup_liveRids
      rw [hsplit] at hnodup
      exact fun hmem => (List.nodup_append.mp hnodup).2.2 rid hmem rid List.mem_cons_self rfl
    have hsplit' : (chains toid).liveRids = (front ++ [rid]) ++ rids := by simp [hsplit]
    have hentered : Agrees (index.insertEntry key rid) fun r =>
        if r ∈ front ++ [rid] then keyAt table.schema attr (chains toid) r else none := by
      refine (hagrees.insertEntry (if_neg hnotin) key).congr fun r => ?_
      by_cases hr : r = rid
      · simp [hr, hkeyAt]
      · simp [hr]
    obtain ⟨index', hbuild, hagrees'⟩ := ih hsplit' (Nat.lt_of_succ_lt_succ hfuel) hentered
    refine ⟨index', ?_, hagrees'⟩
    simp only [Catalog.buildFrom, List.head?_cons, Option.getD_some, hrep.ne_endRid hlive, if_false,
      hrep.getTuple hlive, hread, Option.bind_some, Value.getAsInteger_integer,
      hrep.next_of_split hsplit,
      hbuild]

end DbInv

namespace DbInv

variable {db : Database} {chains : Nat → HeapChain}

/-- **Filling a new index** succeeds, and the index then agrees with its table. -/
theorem fillIndex (hinv : DbInv db chains) {toid : Nat} {table : TableInfo}
    (htable : db.catalog.getTable toid = some table) (index : IndexInfo)
    (hempty : index.intRidMap = ∅) (hpoint : index.supportsPointLookup = false) :
    ∃ index', Catalog.fillIndex table index db.pages = some (index', db.pages) ∧
      ∀ attr, index'.supportsPointLookup = true → index'.keyAttrs = [attr] →
        Agrees index' (keyAt table.schema attr (chains toid)) := by
  have hunfilled : ∀ attr, index.supportsPointLookup = true → index.keyAttrs = [attr] →
      Agrees index (keyAt table.schema attr (chains toid)) := by
    intro attr htrue
    rw [hpoint] at htrue
    cases htrue
  rw [Catalog.fillIndex]
  split
  · rename_i attr hattr
    by_cases htype : (table.schema.getColumn attr).map Column.type = some .integer
    · have hrep := hinv.heap htable
      have hnew : Agrees { index with supportsPointLookup := true } fun r =>
          if r ∈ ([] : List RID) then keyAt table.schema attr (chains toid) r else none := by
        refine Agrees.congr (Agrees.empty ?_) fun r => if_neg List.not_mem_nil
        exact hempty
      obtain ⟨index', hbuild, hagrees⟩ := hinv.buildFrom htable htype (List.nil_append _).symm
        hrep.length_liveRids_lt hnew
      obtain ⟨map, rfl⟩ := buildFrom_eq hbuild
      refine ⟨_, by rw [if_pos htype, hrep.begin]; exact hbuild, fun attr' _ hattr' => ?_⟩
      obtain rfl : attr = attr' := by
        have hattrs : [attr] = [attr'] := hattr.symm.trans hattr'
        simpa using hattrs
      exact hagrees
    · exact ⟨index, by rw [if_neg htype], hunfilled⟩
  · exact ⟨index, rfl, hunfilled⟩

/-- **A new index.** -/
theorem createIndex (hinv : DbInv db chains) (hroom : db.catalog.nextIndexOid ≠ 0)
    {name tableName : String} {keyAttrs : List Nat} {r : Option Nat} {c : Catalog}
    {pages : PageStore TablePage}
    (h : db.catalog.createIndex db.pages name tableName keyAttrs = some (r, c, pages)) :
    DbInv ⟨c, pages⟩ chains := by
  have hok := hinv.catalog.createIndex hroom h
  obtain ⟨-, rfl, rfl⟩ | ⟨info, columns, index, -, hinfo, -, -, hfill, rfl⟩ := createIndex_cases h
  · exact hinv
  · obtain ⟨toid, -, htable, hname⟩ := hinv.catalog.getTableByName hinfo
    obtain ⟨index', hfill', hagrees⟩ := hinv.fillIndex htable
      (.create ⟨columns⟩ name tableName db.catalog.nextIndexOid keyAttrs) rfl rfl
    rw [hfill] at hfill'
    obtain ⟨rfl, rfl⟩ := Prod.mk.inj (Option.some.inj hfill')
    have htn : index.tableName = tableName := by
      obtain ⟨rfl, -⟩ | ⟨attr, map, -, -, rfl⟩ := fillIndex_eq hfill
      · rfl
      · rfl
    refine { hinv with catalog := hok, agrees := ?_ }
    intro oid table ioid i attr ht hi hiname hpoint hattr
    rw [Catalog.getIndex, lookup_insert_eq] at hi
    split at hi
    · obtain rfl := Option.some.inj hi
      have h₁ := hinv.catalog.name_of_table ht
      have h₂ := hinv.catalog.name_of_table htable
      rw [← hiname, htn, ← hname, h₂] at h₁
      obtain rfl := Option.some.inj h₁
      rw [show table = info from Option.some.inj (ht.symm.trans htable)]
      exact hagrees attr hpoint hattr
    · exact hinv.agrees ht hi hiname hpoint hattr

/-- `CreateIndex` returns, and on an INTEGER column the index supports point lookups. -/
theorem createIndex_point (hinv : DbInv db chains) {name tableName : String} {attr : Nat}
    {info : TableInfo} (hinfo : db.catalog.getTableByName tableName = some info)
    (hname : name ≠ "") (hnew : db.catalog.getIndexByName name tableName = none)
    (htype : (info.schema.getColumn attr).map Column.type = some .integer) :
    ∃ c index, db.catalog.createIndex db.pages name tableName [attr] =
        some (some db.catalog.nextIndexOid, c, db.pages) ∧ c.tables = db.catalog.tables ∧
      c.getIndex db.catalog.nextIndexOid = some index ∧ index.tableName = tableName ∧
      index.keyAttrs = [attr] ∧ index.supportsPointLookup = true := by
  obtain ⟨toid, -, htable, -⟩ := hinv.catalog.getTableByName hinfo
  obtain ⟨column, hcolumn, -⟩ := Option.map_eq_some_iff.mp htype
  have hcolumns : [attr].mapM info.schema.getColumn = some [column] := by simp [hcolumn]
  obtain ⟨index, hfill, -⟩ := hinv.fillIndex htable
    (.create ⟨[column]⟩ name tableName db.catalog.nextIndexOid [attr]) rfl rfl
  have hnew' : index.tableName = tableName ∧ index.keyAttrs = [attr] ∧
      index.supportsPointLookup = true := by
    have hfill' := hfill
    simp only [Catalog.fillIndex, IndexInfo.create, htype, if_true, (hinv.heap htable).begin]
      at hfill'
    obtain ⟨map, rfl⟩ := buildFrom_eq hfill'
    exact ⟨rfl, rfl, rfl⟩
  refine ⟨{ db.catalog with
      nextIndexOid := nextOid db.catalog.nextIndexOid
      indexes := db.catalog.indexes.insert db.catalog.nextIndexOid index
      indexNames := db.catalog.indexNames.insert tableName
        (((db.catalog.indexNames.lookup tableName).getD ∅).insert name db.catalog.nextIndexOid) },
    index, ?_, rfl, AList.lookup_insert _, hnew'⟩
  simp [Catalog.createIndex, hinfo, hname, hnew, hcolumns, hfill]

/-- **Dropping an index.** -/
theorem dropIndex (hinv : DbInv db chains) {name tableName : String} {r : Bool} {c : Catalog}
    (h : db.catalog.dropIndex name tableName = (r, c)) : DbInv { db with catalog := c } chains := by
  have hok := hinv.catalog.dropIndex h
  obtain ⟨-, rfl, -⟩ | ⟨oid, -, -, -, -, htables, -, hindexes, -⟩ := dropIndex_cases h
  · exact hinv
  · have hget : ∀ {o t}, c.getTable o = some t → db.catalog.getTable o = some t := by
      intro o t ht
      rw [Catalog.getTable, htables] at ht
      exact ht
    exact {
      catalog := hok
      store := hinv.store
      heap := fun ht => hinv.heap (hget ht)
      disjoint := fun h₁ h₂ => hinv.disjoint (hget h₁) (hget h₂)
      fixed := fun ht => hinv.fixed (hget ht)
      rows := fun ht => hinv.rows (hget ht)
      agrees := fun {toid table ioid index attr} ht hindex => by
        rw [Catalog.getIndex, hindexes, lookup_erase_eq] at hindex
        split at hindex
        · cases hindex
        · exact hinv.agrees (hget ht) hindex }

end DbInv

/-! ## Runs -/

/-- Runs of statements on a new database; `ok` is what they check of the oids that they hand out.
The child of an insertion only reads and yields rows of the table; a deletion scans the table that
it deletes from. The list of indexes is in any order. -/
inductive DbRun (ok : Nat → Prop) (s₀ : PageStore TablePage) : Database → Prop where
  | start : DbRun ok s₀ ⟨{}, s₀⟩
  | createTable {db : Database} {name : String} {schema : Schema} {r : Option Nat} {c : Catalog}
      {pages : PageStore TablePage} :
      DbRun ok s₀ db → ok db.catalog.nextTableOid → FixedColumns schema.given →
      db.catalog.createTable db.pages name schema = (r, c, pages) → DbRun ok s₀ ⟨c, pages⟩
  | createIndex {db : Database} {name tableName : String} {keyAttrs : List Nat} {r : Option Nat}
      {c : Catalog} {pages : PageStore TablePage} :
      DbRun ok s₀ db → ok db.catalog.nextIndexOid →
      db.catalog.createIndex db.pages name tableName keyAttrs = some (r, c, pages) →
      DbRun ok s₀ ⟨c, pages⟩
  | dropIndex {db : Database} {name tableName : String} {r : Bool} {c : Catalog} :
      DbRun ok s₀ db → db.catalog.dropIndex name tableName = (r, c) →
      DbRun ok s₀ { db with catalog := c }
  | insert {σ : Type} {child : Child σ} {fuel toid : Nat} {state : σ} {db db' : Database}
      {table : TableInfo} {oids : List Nat} {rows : List Tuple} :
      DbRun ok s₀ db → child.ReadOnly → db.catalog.getTable toid = some table →
      oids.Perm (db.catalog.getTableIndexes table.name) →
      InsertExecutor.next child fuel state db toid oids = some (rows, db') →
      (∀ tuple ∈ rows, RowOf table tuple) → db'.pages.nextPageId < 2 ^ 31 → DbRun ok s₀ db'
  | delete {fuel toid : Nat} {n : Int32} {plan : ScanPlan} {db db' : Database} {table : TableInfo}
      {oids : List Nat} :
      DbRun ok s₀ db → db.catalog.getTable toid = some table →
      plan.OnTable db.catalog toid table → oids.Perm (db.catalog.getTableIndexes table.name) →
      DeleteExecutor.next fuel plan db toid oids = some (n, db') → DbRun ok s₀ db'

theorem DbInv.start {s₀ : PageStore TablePage} (hok : s₀.StoreOk) :
    DbInv ⟨{}, s₀⟩ fun _ => [] where
  catalog := .empty
  store := hok
  heap := fun h => by simp [Catalog.getTable] at h
  disjoint := fun h => by simp [Catalog.getTable] at h
  fixed := fun h => by simp [Catalog.getTable] at h
  rows := fun h => by simp [Catalog.getTable] at h
  agrees := fun h => by simp [Catalog.getTable] at h

/-- The oids have not wrapped around: this one is not `INVALID_TABLE_OID` or `INVALID_INDEX_OID`. -/
def OidLeft (next : Nat) : Prop := next ≠ 0

/-- **Every run keeps the invariant** while the oids have not wrapped around. -/
theorem DbRun.inv {s₀ : PageStore TablePage} (hok : s₀.StoreOk) {db : Database}
    (hrun : DbRun OidLeft s₀ db) : ∃ chains, DbInv db chains := by
  induction hrun with
  | start => exact ⟨_, .start hok⟩
  | createTable _ hroom hfixed h ih =>
    obtain ⟨chains, hinv⟩ := ih
    exact hinv.createTable hroom hfixed h
  | createIndex _ hroom h ih =>
    obtain ⟨chains, hinv⟩ := ih
    exact ⟨chains, hinv.createIndex hroom h⟩
  | dropIndex _ h ih =>
    obtain ⟨chains, hinv⟩ := ih
    exact ⟨chains, hinv.dropIndex h⟩
  | insert _ hchild htable hperm h hrows hid ih =>
    obtain ⟨chains, hinv⟩ := ih
    simp only [InsertExecutor.next, htable] at h
    exact hinv.insertLoop hchild htable (hinv.catalog.listsIndexes hperm) h hrows hid
  | delete _ htable hplan hperm h ih =>
    obtain ⟨chains, hinv⟩ := ih
    rw [DeleteExecutor.next] at h
    split at h
    · cases h
    · rename_i scan pages hinit
      obtain ⟨rfl, hscan, rids, hpending⟩ := (hinv.tableOk htable).init hinit hplan
      simp only [htable] at h
      exact hinv.deleteLoop htable (hinv.catalog.listsIndexes hperm) hscan hpending h

/-- The key that a reader of the table finds at a RID. -/
def keyOf (s : PageStore TablePage) (table : TableInfo) (attr : Nat) (rid : RID) : Option Int32 :=
  ((Tuple.ofBytes rid (TableHeap.getTuple s rid).1).getValue table.schema attr).bind
    Value.getAsInteger

/-- **Indexes agree with their tables.** The iterator of the table visits the RIDs
`rids`; an index with point lookups has each of them once under its key, no other
RID, and no empty list. -/
theorem dbRun_indexes_agree {s₀ : PageStore TablePage} (hok : s₀.StoreOk) {db : Database}
    (hrun : DbRun OidLeft s₀ db) {ioid : Nat} {index : IndexInfo}
    (hindex : db.catalog.getIndex ioid = some index) (hpoint : index.supportsPointLookup = true) :
    ∃ table attr rids, db.catalog.getTableByName index.tableName = some table ∧
      index.getLookupAttr = some attr ∧
      table.table.walk (TableHeap.tupleFuel db.pages) db.pages = some (rids, db.pages) ∧
      Agrees index fun r => if r ∈ rids then keyOf db.pages table attr r else none := by
  obtain ⟨chains, hinv⟩ := hrun.inv hok
  obtain ⟨toid, table, hname, htable, hon⟩ := hinv.catalog.index_table hindex
  obtain ⟨attr, hattr, -⟩ := hon.point hpoint
  have hrep := hinv.heap htable
  have htn : index.tableName = table.name := by
    obtain ⟨table', htable', hname'⟩ := hinv.catalog.table_of_name hname
    rw [htable] at htable'
    obtain rfl := Option.some.inj htable'
    exact hname'.symm
  refine ⟨table, attr, (chains toid).liveRids, ?_, ?_, hrep.walk hrep.length_liveRids_lt, ?_⟩
  · rw [Catalog.getTableByName, hname]
    exact htable
  · simp [IndexInfo.getLookupAttr, hattr]
  · refine (hinv.agrees htable hindex htn hpoint hattr).congr fun r => ?_
    have hmem := HeapChain.mem_liveRids hrep.nodup r
    cases hlive : (chains toid).tupleAt r with
    | none =>
      rw [if_neg (fun h => hmem.mp h hlive)]
      simp [keyAt, hlive]
    | some bytes =>
      rw [if_pos (hmem.mpr (by simp [hlive]))]
      simp [keyAt, hlive, keyOf, hrep.getTuple hlive]

/-- The child that yields the rows of a list. -/
def rowsChild : Child (List Tuple) where
  next := fun rows s =>
    match rows with
    | [] => some (none, [], s)
    | tuple :: rows => some (some (tuple, {}), rows, s)

theorem rowsChild_readOnly : rowsChild.ReadOnly := by
  intro rows s r rows' s' h
  cases rows with
  | nil => exact (Prod.mk.inj (Prod.mk.inj (Option.some.inj h)).2).2.symm
  | cons tuple rows => exact (Prod.mk.inj (Prod.mk.inj (Option.some.inj h)).2).2.symm

/-- The rows of a list go on the first page of a table without indexes if there is room. -/
theorem InsertExecutor.loop_rowsChild {table : TableInfo}
    (hne : table.table.firstPageId ≠ invalidPageId) (c : Catalog) {next : PageId}
    {rows : List Tuple} : ∀ {s : PageStore TablePage} {slots : List (List UInt8)}
      (inserted : List Tuple),
      TablePage.PageRep (s.pages table.table.firstPageId) next slots →
      (rows.map fun tuple => tuple.data.length + 4).sum ≤
        (s.pages table.table.firstPageId).getFreeSpaceRemaining →
      ∃ page, loop rowsChild table [] (rows.length + 1) rows ⟨c, s⟩ inserted =
          some (inserted ++ rows, ⟨c, s.setPage table.table.firstPageId page⟩) ∧
        TablePage.PageRep page next (slots ++ rows.map Tuple.data) ∧
        page.getFreeSpaceRemaining + (rows.map fun tuple => tuple.data.length + 4).sum =
          (s.pages table.table.firstPageId).getFreeSpaceRemaining := by
  induction rows with
  | nil =>
    intro s slots inserted hpage _
    refine ⟨s.pages table.table.firstPageId, ?_, ?_, rfl⟩
    · rw [setPage_pages, List.append_nil]
      rfl
    · rwa [List.map_nil, List.append_nil]
  | cons tuple rows ih =>
    intro s slots inserted hpage hroom
    have hsum : ((tuple :: rows).map fun tuple => tuple.data.length + 4).sum =
        tuple.data.length + 4 + (rows.map fun tuple => tuple.data.length + 4).sum := by
      rw [List.map_cons, List.sum_cons]
    rw [hsum] at hroom ⊢
    have hfirst : tuple.data.length + 4 ≤
        (s.pages table.table.firstPageId).getFreeSpaceRemaining := by omega
    obtain ⟨page, hins, hpage', hfree⟩ := TableHeap.insertTuple_first hne hpage hfirst
    have hrest : (rows.map fun tuple => tuple.data.length + 4).sum ≤
        page.getFreeSpaceRemaining := by omega
    rw [← pages_setPage_self s table.table.firstPageId page] at hpage' hrest
    obtain ⟨page', hloop, hrows, hleft⟩ := ih (inserted ++ [tuple]) hpage' hrest
    rw [setPage_setPage, List.append_assoc] at hloop
    rw [pages_setPage_self] at hleft
    refine ⟨page', ?_, ?_, by omega⟩
    · rw [List.length_cons, loop]
      simp only [rowsChild, hins, maintain]
      exact hloop
    · rwa [List.map_cons, List.append_cons]

/-- A table with one INTEGER column, in a new database. -/
def oneColumn : Option Nat × Catalog × PageStore TablePage :=
  Catalog.createTable {} emptyStore "t" ⟨[⟨"a", .integer, 0, 0⟩]⟩

/-- The table of `oneColumn`. -/
def oneColumnTable : TableInfo :=
  ⟨⟨[⟨"a", .integer, 0, 0⟩]⟩, "t", (TableHeap.create emptyStore).1, 1⟩

theorem dbRun_oneColumn {ok : Nat → Prop} (hok : ok 1) :
    DbRun ok emptyStore ⟨oneColumn.2.1, oneColumn.2.2⟩ :=
  DbRun.start.createTable hok (by simp [FixedColumns]) rfl

/-- The table `t` is found by its name. -/
theorem getTableByName_oneColumn {db : Database} {chains : Nat → HeapChain}
    (hinv : DbInv db chains) (htable : db.catalog.getTable 1 = some oneColumnTable) :
    db.catalog.getTableByName "t" = some oneColumnTable := by
  have hlookup : db.catalog.tableNames.lookup "t" = some 1 := hinv.catalog.name_of_table htable
  rw [Catalog.getTableByName, hlookup]
  exact htable

/-- The bytes of the row `(7)`. -/
def seven : List UInt8 := [7, 0, 0, 0]

/-- The row `(7)`. -/
def sevenTuple : Tuple := { data := seven, values := [.integer 7] }

/-- The bytes of the row `(9)`. -/
def nine : List UInt8 := [9, 0, 0, 0]

/-- The row `(9)`. -/
def nineTuple : Tuple := { data := nine, values := [.integer 9] }

theorem rowOf_sevenTuple : RowOf oneColumnTable sevenTuple :=
  ⟨[.integer 7], .cons ⟨rfl, rfl⟩ .nil, by decide⟩

theorem rowOf_nineTuple : RowOf oneColumnTable nineTuple :=
  ⟨[.integer 9], .cons ⟨rfl, rfl⟩ .nil, by decide⟩

/-- The rows `(7)`, `(9)` and `(7)`. -/
def insertedRows : List Tuple := [sevenTuple, nineTuple, sevenTuple]

theorem rowOf_insertedRows : ∀ tuple ∈ insertedRows, RowOf oneColumnTable tuple := by
  simp [insertedRows, rowOf_sevenTuple, rowOf_nineTuple]

/-- They go on the page of the new heap, and leave room there. -/
theorem exists_insertedPage : ∃ page,
    InsertExecutor.next rowsChild 4 insertedRows ⟨oneColumn.2.1, oneColumn.2.2⟩ 1 [] =
      some (insertedRows, ⟨oneColumn.2.1, oneColumn.2.2.setPage 0 page⟩) ∧
    TablePage.PageRep page invalidPageId (insertedRows.map Tuple.data) ∧
    12 ≤ page.getFreeSpaceRemaining := by
  have hnew : oneColumn.2.2.pages 0 = .init invalidPageId := by
    simp [oneColumn, Catalog.createTable, TableHeap.create, emptyStore, newPage, setPage, unpinPage]
  have hpage : TablePage.PageRep (oneColumn.2.2.pages 0) invalidPageId [] :=
    hnew ▸ TablePage.pageRep_init isInt32_invalid
  have hfree : (oneColumn.2.2.pages 0).getFreeSpaceRemaining = 4080 :=
    hnew ▸ TablePage.getFreeSpaceRemaining_init isInt32_invalid
  have hsum : (insertedRows.map fun tuple => tuple.data.length + 4).sum = 24 := rfl
  obtain ⟨page, hloop, hrows, hleft⟩ := @InsertExecutor.loop_rowsChild oneColumnTable (by decide)
    oneColumn.2.1 _ insertedRows _ _ [] hpage (hsum ▸ hfree ▸ by decide)
  refine ⟨page, hloop, hrows, ?_⟩
  have hleft' : page.getFreeSpaceRemaining + 24 = 4080 := hleft.trans hfree
  omega

/-- The table `t` has these rows, and an index on `a`. -/
structure RowsInserted (db : Database) : Prop where
  table : db.catalog.getTable 1 = some oneColumnTable
  index : ∃ index, db.catalog.getIndex 1 = some index ∧ index.tableName = "t" ∧
    index.keyAttrs = [0] ∧ index.supportsPointLookup = true
  heap : HeapRep oneColumnTable.table db.pages [(0, insertedRows.map Tuple.data)]
  room : 12 ≤ (db.pages.pages 0).getFreeSpaceRemaining

/-- An insertion and the creation of the index. -/
theorem exists_rowsInserted : ∃ (db db' : Database) (r : Option Nat),
    InsertExecutor.next rowsChild 4 insertedRows ⟨oneColumn.2.1, oneColumn.2.2⟩ 1 [] =
      some (insertedRows, db) ∧
    db.pages.nextPageId < 2 ^ 31 ∧ OidLeft db.catalog.nextIndexOid ∧
    db.catalog.createIndex db.pages "i" "t" [0] = some (r, db'.catalog, db'.pages) ∧
    DbRun OidLeft emptyStore db' ∧ RowsInserted db' := by
  have htable : oneColumn.2.1.getTable 1 = some oneColumnTable := rfl
  obtain ⟨page, hnext, hpage, hfree⟩ := exists_insertedPage
  have hid : (1 : Int) < 2 ^ 31 := by decide
  have hroom : OidLeft oneColumn.2.1.nextIndexOid := Nat.one_ne_zero
  have hinserted := (@dbRun_oneColumn OidLeft hroom).insert rowsChild_readOnly htable (.refl [])
    hnext rowOf_insertedRows hid
  obtain ⟨chains, hinv⟩ := hinserted.inv emptyStore_ok
  obtain ⟨c, index, hcreate, htables, hindex⟩ := hinv.createIndex_point
    (rfl : oneColumn.2.1.getTableByName "t" = some oneColumnTable) (by decide : "i" ≠ "") rfl
    (rfl : (oneColumnTable.schema.getColumn 0).map Column.type = some .integer)
  refine ⟨_, ⟨c, oneColumn.2.2.setPage 0 page⟩, _, hnext, hid, hroom, hcreate,
    hinserted.createIndex hroom hcreate, ?_, ⟨index, hindex⟩,
    ⟨⟨rfl, by decide, invalidPageId, ?_, rfl⟩, List.cons_ne_nil _ _, List.nodup_singleton _,
      fun e he => ?_⟩, ?_⟩
  · rw [Catalog.getTable, htables]
    exact htable
  · rw [pages_setPage_self]
    exact hpage
  · rw [List.mem_singleton.mp he]
    exact ⟨Int.le_refl 0, Int.zero_lt_one⟩
  · rw [pages_setPage_self]
    exact hfree

/-- The index on the rows `(7)`, `(9)` and `(7)`. -/
theorem dbRun_indexes_agree_rows : ∃ (db : Database) (index : IndexInfo),
    DbRun OidLeft emptyStore db ∧ db.catalog.getIndex 1 = some index ∧
      index.supportsPointLookup = true ∧
      oneColumnTable.table.walk (TableHeap.tupleFuel db.pages) db.pages =
        some ([⟨0, 0⟩, ⟨0, 1⟩, ⟨0, 2⟩], db.pages) ∧
      Agrees index fun r =>
        if r ∈ [⟨0, 0⟩, ⟨0, 1⟩, ⟨0, 2⟩] then keyOf db.pages oneColumnTable 0 r else none := by
  obtain ⟨_, db, _, -, -, -, -, hrun, hrows⟩ := exists_rowsInserted
  obtain ⟨index, hindex, hname, hattrs, hpoint⟩ := hrows.index
  obtain ⟨table, attr, rids, htable, hattr, hwalk, hagrees⟩ :=
    dbRun_indexes_agree emptyStore_ok hrun hindex hpoint
  obtain ⟨chains, hinv⟩ := hrun.inv emptyStore_ok
  have htable' : db.catalog.getTableByName index.tableName = some oneColumnTable :=
    hname ▸ getTableByName_oneColumn hinv hrows.table
  obtain rfl := Option.some.inj (htable'.symm.trans htable)
  obtain rfl : 0 = attr := by
    rw [IndexInfo.getLookupAttr, hattrs] at hattr
    exact Option.some.inj hattr
  have hrids : rids = [⟨0, 0⟩, ⟨0, 1⟩, ⟨0, 2⟩] := (Prod.mk.inj (Option.some.inj
    (hwalk.symm.trans (hrows.heap.walk hrows.heap.length_liveRids_lt)))).1
  subst hrids
  exact ⟨db, index, hrun, hindex, hpoint, hwalk, hagrees⟩

/-! ## When the oids wrap around -/

/-- The value of the counter after so many oids. -/
theorem nextOid_add (oid n : Nat) : nextOid ((oid + n) % 2 ^ 32) = (oid + (n + 1)) % 2 ^ 32 := by
  rw [nextOid, Nat.mod_add_mod, Nat.add_assoc]

/-- So many indexes on an empty table, one after the other. -/
theorem DbRun.recreate {s₀ s : PageStore TablePage} {indexName tableName : String}
    {keyAttrs : List Nat} {info : TableInfo} {names : UnorderedMap String Nat}
    {columns : List Column} (hname : indexName ≠ "") (hattrs : keyAttrs ≠ [])
    (hnew : indexName ∉ names) (hcolumns : keyAttrs.mapM info.schema.getColumn = some columns)
    {c : Catalog} (hrun : DbRun (fun _ => True) s₀ ⟨c, s⟩)
    (hindexed : Indexed c tableName info names)
    (hempty : TablesEmpty c s) (hlt : c.nextIndexOid < 2 ^ 32) (n : Nat) :
    ∃ c', DbRun (fun _ => True) s₀ ⟨c', s⟩ ∧ Indexed c' tableName info names ∧
      c'.tables = c.tables ∧ c'.nextIndexOid = (c.nextIndexOid + n) % 2 ^ 32 := by
  induction n with
  | zero => exact ⟨c, hrun, hindexed, rfl, (Nat.mod_eq_of_lt hlt).symm⟩
  | succ n ih =>
    obtain ⟨c', hrun', hindexed', htables, hnext⟩ := ih
    obtain ⟨c₁, c₂, hcreate, hdrop, hindexed₂, htables₂, hnext₂⟩ :=
      hindexed'.recreate (hempty.congr htables) hname hattrs hnew hcolumns
    have hcreated := hrun'.createIndex trivial hcreate
    refine ⟨c₂, hcreated.dropIndex hdrop, hindexed₂, htables₂.trans htables, ?_⟩
    rw [hnext₂, hnext, nextOid_add]

/-- An oid that is listed twice gets an entry twice. -/
theorem maintain_twice {c : Catalog} {index : IndexInfo} {oid attr : Nat} {schema : Schema}
    {tuple : Tuple} {rid : RID} {key : Int32} (hindex : c.getIndex oid = some index)
    (hpoint : index.supportsPointLookup = true) (hattrs : index.keyAttrs = [attr])
    (hkey : tuple.getValue schema attr = some (.integer key)) :
    ∃ c', maintain .insertEntry schema tuple rid [oid, oid] c = some c' ∧
      c'.getIndex oid = some ((index.insertEntry key rid).insertEntry key rid) := by
  have hone : ∀ map, maintainOne .insertEntry schema tuple rid { index with intRidMap := map } =
      some (({ index with intRidMap := map } : IndexInfo).insertEntry key rid) := fun map => by
    simp [maintainOne, hpoint, IndexInfo.getLookupAttr, hattrs, hkey, Value.isNull,
      Value.getTypeId, Value.getAsInteger_integer]
  obtain ⟨map, hmap⟩ := index.insertEntry_eq key rid
  have hfirst := hone index.intRidMap
  have hsecond := hone map
  rw [← hmap] at hsecond
  simp only [maintain, hindex, hfirst]
  have hget : Catalog.getIndex
      { c with indexes := c.indexes.insert oid (index.insertEntry key rid) } oid =
      some (index.insertEntry key rid) := AList.lookup_insert _
  rw [hget]
  simp only [hsecond]
  exact ⟨_, rfl, AList.lookup_insert _⟩

/-- **An index disagrees with its table**: after `2 ^ 32 - 1` more indexes that were created and
dropped, a second index takes the oid of the first one, the table lists this oid twice, and the
next insertion enters its RID twice. -/
theorem dbRun_indexes_disagree : ∃ (db : Database) (index : IndexInfo) (rid : RID),
    DbRun (fun _ => True) emptyStore db ∧ db.catalog.getIndex 1 = some index ∧
      index.supportsPointLookup = true ∧ (index.rids 7).count rid = 2 := by
  have hcreated := @dbRun_oneColumn (fun _ => True) trivial
  have hnone : TablesEmpty {} emptyStore :=
    ⟨emptyStore_ok, fun h => by simp [Catalog.getTable] at h⟩
  have hempty : TablesEmpty oneColumn.2.1 oneColumn.2.2 :=
    hnone.createTable "t" ⟨[⟨"a", .integer, 0, 0⟩]⟩
  have hindexed : Indexed oneColumn.2.1 "t" oneColumnTable ∅ := ⟨rfl, rfl⟩
  -- the first index, and all but the last of the others
  obtain ⟨_, c₁, -, hcreate₁, -, htables₁, hnext₁, htable₁, hnames₁⟩ := hindexed.createIndex hempty
    (by decide : "i" ≠ "") (List.cons_ne_nil 0 []) (AList.notMem_empty _) rfl
  have hnew : "j" ∉ (∅ : UnorderedMap String Nat).insert "i" 1 := by
    rw [AList.mem_insert]
    decide
  have hnext₁' : c₁.nextIndexOid = 2 := hnext₁
  obtain ⟨c₂, hrun₂, hindexed₂, htables₂, hnext₂⟩ := DbRun.recreate (by decide : "j" ≠ "")
    (List.cons_ne_nil 0 []) hnew rfl (hcreated.createIndex trivial hcreate₁)
    ⟨htable₁, congrArg (Option.getD · ∅) hnames₁⟩ (hempty.congr htables₁)
    (hnext₁' ▸ (by decide : 2 < 2 ^ 32)) (2 ^ 32 - 1)
  have hone : c₂.nextIndexOid = 1 := by
    rw [hnext₂, hnext₁']
    decide
  have htables : c₂.tables = oneColumn.2.1.tables := htables₂.trans htables₁
  -- the last one takes the oid of the first
  obtain ⟨index, c, hfill, hcreate, hindex, htables₃, -, -, hnames⟩ := hindexed₂.createIndex
    (hempty.congr htables) (by decide : "j" ≠ "") (List.cons_ne_nil 0 []) hnew rfl
  rw [hone] at hfill hindex hnames
  have htable : c.getTable 1 = some oneColumnTable := by
    rw [Catalog.getTable, htables₃, htables]
    rfl
  have hpoint := (hempty.congr (htables₃.trans htables)).fillIndex_point htable
    (rfl : (IndexInfo.create ⟨[⟨"a", .integer, 0, 0⟩]⟩ "j" "t" 1 [0]).keyAttrs = [0]) rfl
  obtain ⟨rfl, -⟩ := Prod.mk.inj (Option.some.inj (hfill.symm.trans hpoint))
  have hlist : c.getTableIndexes "t" = [1, 1] := by
    rw [Catalog.getTableIndexes, hnames]
    rfl
  -- the row
  obtain ⟨chains, hinv⟩ := (@dbRun_oneColumn OidLeft Nat.one_ne_zero).inv emptyStore_ok
  obtain ⟨rid, pages, chain, hins, -, -, -, hinserted⟩ :=
    (hinv.heap (rfl : oneColumn.2.1.getTable 1 = some oneColumnTable)).insertTuple hinv.store
      (by decide) (by decide : sevenTuple.data.length ≤ 4076)
  have hins' : oneColumnTable.table.insertTuple oneColumn.2.2 sevenTuple.data =
      some (some rid, pages) := hins
  obtain ⟨c', hmaintain, hindex'⟩ := @maintain_twice c _ 1 0 oneColumnTable.schema sevenTuple rid 7
    hindex rfl rfl rfl
  have hnext : InsertExecutor.next rowsChild 2 [sevenTuple] ⟨c, oneColumn.2.2⟩ 1 [1, 1] =
      some ([sevenTuple], ⟨c', pages⟩) := by
    simp [InsertExecutor.next, InsertExecutor.loop, htable, rowsChild, hins', hmaintain]
  refine ⟨_, _, rid, (hrun₂.createIndex trivial hcreate).insert rowsChild_readOnly htable
    (hlist ▸ .refl _) hnext (fun tuple htuple => List.mem_singleton.mp htuple ▸ rowOf_sevenTuple)
    (Int.lt_of_le_of_lt hinserted.next_succ (by decide)), hindex', rfl, ?_⟩
  rw [IndexInfo.rids, IndexInfo.lookupInteger_insertEntry, if_pos rfl, IndexInfo.rids,
    IndexInfo.lookupInteger_insertEntry, if_pos rfl]
  simp [IndexInfo.rids, IndexInfo.lookupInteger, IndexInfo.create]

end OneBase
