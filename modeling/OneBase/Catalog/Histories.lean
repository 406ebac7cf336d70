import Mathlib.Data.Set.Function
import OneBase.Catalog.Consistency

/-!
# Histories of the catalog

A history is a sequence of calls of `CreateTable`, `CreateIndex` and `DropIndex` on a new
catalog. The functions that look up an oid with `at()` throw if the map does not have it; here
they have no value then.

- `Catalog.Consistent`: the four maps are consistent, and no lookup throws.
- `CatalogCall.run_ok`: what one call keeps, whatever is in the pages.
- `catalogRun_consistent`: every history returns, and what holds after it while there are oids.
- `catalogRun_reuses`: an oid is handed out again after the counter has wrapped around.
-/

namespace OneBase

open Catalog

namespace Catalog

/-! ## Lookups with `at()` -/

/-- `GetTable(name)`: no value if `tables_.at` throws; `none` stands for `nullptr`. -/
def getTableAt (c : Catalog) (tableName : String) : Option (Option TableInfo) :=
  match c.tableNames.lookup tableName with
  | none => some none
  | some oid => (c.getTable oid).map some

/-- `GetIndex(index_name, table_name)`: no value if `indexes_.at` throws. -/
def getIndexAt (c : Catalog) (indexName tableName : String) : Option (Option IndexInfo) :=
  match c.indexOid tableName indexName with
  | none => some none
  | some oid => (c.getIndex oid).map some

/-- `GetTableIndexes`: no value if `indexes_.at` throws. -/
def getTableIndexesAt (c : Catalog) (tableName : String) : Option (List IndexInfo) :=
  (c.getTableIndexes tableName).mapM c.getIndex

/-- Model of `GetAllIndexes`. -/
def getAllIndexes (c : Catalog) : List IndexInfo := c.indexes.entries.map (·.2)

/-- **The maps are consistent**, and no lookup throws. -/
structure Consistent (c : Catalog) : Prop where
  tables_bijOn : Set.BijOn (fun name => (c.tableNames.lookup name).getD 0)
    {name | name ∈ c.tableNames} {oid | oid ∈ c.tables}
  getTable_same : ∀ {name oid}, c.tableNames.lookup name = some oid →
    ∃ table, c.getTableAt name = some (some table) ∧ c.getTable oid = some table ∧
      table.name = name
  indexes_bijOn : Set.BijOn (fun e : String × String => (c.indexOid e.1 e.2).getD 0)
    {e | c.indexOid e.1 e.2 ≠ none} {oid | oid ∈ c.indexes}
  getIndex_same : ∀ {table name oid}, c.indexOid table name = some oid →
    ∃ index, c.getIndexAt name table = some (some index) ∧ c.getIndex oid = some index ∧
      index.tableName = table ∧ index.name = name
  inner_nonempty : ∀ {table names}, c.indexNames.lookup table = some names → names ≠ ∅
  index_table : ∀ {oid index}, c.getIndex oid = some index →
    ∃ table, c.getTableAt index.tableName = some (some table) ∧
      ∀ attr ∈ index.keyAttrs, attr < table.schema.getColumnCount
  table_indexes : ∀ name, ∃ infos, c.getTableIndexesAt name = some infos ∧
    (infos.map IndexInfo.oid).Nodup ∧
    ∀ index, index ∈ infos ↔ ∃ oid, c.getIndex oid = some index ∧ index.tableName = name
  all_indexes : (c.getAllIndexes.map IndexInfo.oid).Nodup ∧
    ∀ index, index ∈ c.getAllIndexes ↔ ∃ oid, c.getIndex oid = some index

/-- No table has an empty map of index names. -/
def InnerNonempty (c : Catalog) : Prop :=
  ∀ {table names}, c.indexNames.lookup table = some names → names ≠ ∅

end Catalog

namespace CatalogOk

variable {c : Catalog}

theorem getTableAt_eq (hok : CatalogOk c) {name : String} {oid : Nat}
    (h : c.tableNames.lookup name = some oid) :
    ∃ table, c.getTableAt name = some (some table) ∧ c.getTable oid = some table ∧
      table.name = name := by
  obtain ⟨table, htable, hname⟩ := hok.table_of_name h
  refine ⟨table, ?_, htable, hname⟩
  simp only [getTableAt, h, htable]
  rfl

theorem getIndexAt_eq (hok : CatalogOk c) {table name : String} {oid : Nat}
    (h : c.indexOid table name = some oid) :
    ∃ index, c.getIndexAt name table = some (some index) ∧ c.getIndex oid = some index ∧
      index.tableName = table ∧ index.name = name := by
  obtain ⟨index, hindex, htable, hname⟩ := hok.index_of_name h
  refine ⟨index, ?_, hindex, htable, hname⟩
  simp only [getIndexAt, h, hindex]
  rfl

/-- Names and tables are in bijection. -/
theorem tables_bijOn (hok : CatalogOk c) :
    Set.BijOn (fun name => (c.tableNames.lookup name).getD 0) {name | name ∈ c.tableNames}
      {oid | oid ∈ c.tables} := by
  refine ⟨fun name hname => ?_, fun name hname name' hname' heq => ?_, fun oid hoid => ?_⟩
  · obtain ⟨oid, hoid⟩ := Option.isSome_iff_exists.mp (AList.lookup_isSome.mpr hname)
    obtain ⟨table, htable, -⟩ := hok.table_of_name hoid
    show (c.tableNames.lookup name).getD 0 ∈ c.tables
    rw [hoid]
    exact AList.lookup_isSome.mp (Option.isSome_iff_exists.mpr ⟨table, htable⟩)
  · obtain ⟨oid, hoid⟩ := Option.isSome_iff_exists.mp (AList.lookup_isSome.mpr hname)
    obtain ⟨oid', hoid'⟩ := Option.isSome_iff_exists.mp (AList.lookup_isSome.mpr hname')
    simp only [hoid, hoid', Option.getD_some] at heq
    subst heq
    obtain ⟨table, htable, rfl⟩ := hok.table_of_name hoid
    obtain ⟨table', htable', rfl⟩ := hok.table_of_name hoid'
    obtain rfl := Option.some.inj (htable.symm.trans htable')
    rfl
  · obtain ⟨table, htable⟩ := Option.isSome_iff_exists.mp (AList.lookup_isSome.mpr hoid)
    have hname := hok.name_of_table htable
    refine ⟨table.name, AList.lookup_isSome.mp (Option.isSome_iff_exists.mpr ⟨oid, hname⟩), ?_⟩
    simp only [hname, Option.getD_some]

/-- Pairs of names and indexes are in bijection. -/
theorem indexes_bijOn (hok : CatalogOk c) :
    Set.BijOn (fun e : String × String => (c.indexOid e.1 e.2).getD 0)
      {e | c.indexOid e.1 e.2 ≠ none} {oid | oid ∈ c.indexes} := by
  refine ⟨fun e he => ?_, fun e he e' he' heq => ?_, fun oid hoid => ?_⟩
  · obtain ⟨oid, hoid⟩ := Option.ne_none_iff_exists'.mp he
    obtain ⟨index, hindex, -⟩ := hok.index_of_name hoid
    show (c.indexOid e.1 e.2).getD 0 ∈ c.indexes
    rw [hoid]
    exact AList.lookup_isSome.mp (Option.isSome_iff_exists.mpr ⟨index, hindex⟩)
  · obtain ⟨oid, hoid⟩ := Option.ne_none_iff_exists'.mp he
    obtain ⟨oid', hoid'⟩ := Option.ne_none_iff_exists'.mp he'
    simp only [hoid, hoid', Option.getD_some] at heq
    subst heq
    obtain ⟨index, hindex, ht, hn⟩ := hok.index_of_name hoid
    obtain ⟨index', hindex', ht', hn'⟩ := hok.index_of_name hoid'
    obtain rfl := Option.some.inj (hindex.symm.trans hindex')
    exact Prod.ext (ht.symm.trans ht') (hn.symm.trans hn')
  · obtain ⟨index, hindex⟩ := Option.isSome_iff_exists.mp (AList.lookup_isSome.mpr hoid)
    have hname := hok.name_of_index hindex
    refine ⟨(index.tableName, index.name), ?_, ?_⟩
    · show c.indexOid index.tableName index.name ≠ none
      rw [hname]
      exact Option.some_ne_none oid
    · simp only [hname, Option.getD_some]

/-- **`GetTableIndexes` does not throw**, and lists every index of the table once. -/
theorem getTableIndexesAt_eq (hok : CatalogOk c) (name : String) :
    ∃ infos, c.getTableIndexesAt name = some infos ∧ (infos.map IndexInfo.oid).Nodup ∧
      ∀ index, index ∈ infos ↔ ∃ oid, c.getIndex oid = some index ∧ index.tableName = name := by
  have hall : ∀ oid ∈ c.getTableIndexes name, ∃ index, c.getIndex oid = some index := by
    intro oid hoid
    obtain ⟨index, hindex, -⟩ := hok.mem_getTableIndexes.mp hoid
    exact ⟨index, hindex⟩
  obtain ⟨infos, hinfos⟩ := Cpp.exists_mapM hall
  -- an object has the oid under which it is held
  have hoids : infos.map IndexInfo.oid = c.getTableIndexes name := by
    have hforall := Cpp.mapM_eq_some_iff.mp hinfos
    rw [← List.forall₂_eq_eq_eq, List.forall₂_map_left_iff]
    exact hforall.flip.imp fun index oid hindex => hok.index_oid hindex
  refine ⟨infos, hinfos, hoids ▸ hok.nodup_getTableIndexes name, fun index => ⟨fun hmem => ?_, ?_⟩⟩
  · obtain ⟨oid, hoid, hindex⟩ := Cpp.exists_of_mem_mapM hinfos hmem
    obtain ⟨index', hindex', htable⟩ := hok.mem_getTableIndexes.mp hoid
    obtain rfl := Option.some.inj (hindex.symm.trans hindex')
    exact ⟨oid, hindex, htable⟩
  · rintro ⟨oid, hindex, htable⟩
    have hmem := hok.mem_getTableIndexes.mpr ⟨index, hindex, htable⟩
    rw [← hoids] at hmem
    obtain ⟨index', hmem', hoid⟩ := List.mem_map.mp hmem
    obtain ⟨oid', -, hindex'⟩ := Cpp.exists_of_mem_mapM hinfos hmem'
    obtain rfl : oid = oid' := hoid.symm.trans (hok.index_oid hindex')
    obtain rfl := Option.some.inj (hindex.symm.trans hindex')
    exact hmem'

/-- `GetAllIndexes` lists every index once. -/
theorem getAllIndexes_eq (hok : CatalogOk c) :
    (c.getAllIndexes.map IndexInfo.oid).Nodup ∧
      ∀ index, index ∈ c.getAllIndexes ↔ ∃ oid, c.getIndex oid = some index := by
  have hentry : ∀ e ∈ c.indexes.entries, c.getIndex e.1 = some e.2 := fun e he =>
    AList.mem_lookup_iff.mpr he
  constructor
  · have hoids : c.getAllIndexes.map IndexInfo.oid = c.indexes.keys := by
      rw [getAllIndexes, List.map_map]
      exact List.map_congr_left fun e he => hok.index_oid (hentry e he)
    rw [hoids]
    exact c.indexes.nodupKeys
  · intro index
    rw [getAllIndexes, List.mem_map]
    constructor
    · rintro ⟨e, he, rfl⟩
      exact ⟨e.1, hentry e he⟩
    · rintro ⟨oid, hindex⟩
      exact ⟨⟨oid, index⟩, AList.mem_lookup_iff.mp hindex, rfl⟩

/-- **A consistent catalog**, as its users see it. -/
theorem consistent (hok : CatalogOk c) (hinner : c.InnerNonempty) : c.Consistent where
  tables_bijOn := hok.tables_bijOn
  getTable_same := hok.getTableAt_eq
  indexes_bijOn := hok.indexes_bijOn
  getIndex_same := hok.getIndexAt_eq
  inner_nonempty := hinner
  index_table := fun hindex => by
    obtain ⟨toid, table, hname, htable, hon⟩ := hok.index_table hindex
    obtain ⟨table', hat, htable', -⟩ := hok.getTableAt_eq hname
    obtain rfl := Option.some.inj (htable.symm.trans htable')
    exact ⟨table, hat, hon.attrs⟩
  table_indexes := hok.getTableIndexesAt_eq
  all_indexes := hok.getAllIndexes_eq

end CatalogOk

/-! ## Calls -/

/-- A call on the catalog. -/
inductive CatalogCall where
  | createTable (tableName : String) (schema : Schema)
  | createIndex (indexName tableName : String) (keyAttrs : List Nat)
  | dropIndex (indexName tableName : String)

/-- What a call returns; a `TableInfo *` or an `IndexInfo *` is its oid. -/
inductive CallResult where
  | table (oid : Option Nat)
  | index (oid : Option Nat)
  | dropped (done : Bool)
  deriving DecidableEq

namespace CallResult

/-- The call returned `nullptr` or `false`. -/
def Fails : CallResult → Prop
  | table oid => oid = none
  | index oid => oid = none
  | dropped done => done = false

/-- The oid of a new table. -/
def tableOid : CallResult → Option Nat
  | table oid => oid
  | _ => none

/-- The oid of a new index. -/
def indexOid : CallResult → Option Nat
  | index oid => oid
  | _ => none

end CallResult

namespace CatalogCall

/-- The call may take the next oid of a table. -/
def createsTable : CatalogCall → Bool
  | createTable _ _ => true
  | _ => false

/-- The call may take the next oid of an index. -/
def createsIndex : CatalogCall → Bool
  | createIndex _ _ _ => true
  | _ => false

end CatalogCall

/-- One call. No value stands for a loop over the table in `CreateIndex` that does not come
to its end. -/
def CatalogCall.run (c : Catalog) (s : PageStore TablePage) :
    CatalogCall → Option (CallResult × Catalog × PageStore TablePage)
  | createTable tableName schema =>
    let (oid, c, s) := c.createTable s tableName schema
    some (.table oid, c, s)
  | createIndex indexName tableName keyAttrs =>
    (c.createIndex s indexName tableName keyAttrs).map fun (oid, c, s) => (.index oid, c, s)
  | dropIndex indexName tableName =>
    let (done, c) := c.dropIndex indexName tableName
    some (.dropped done, c, s)

theorem CatalogCall.run_createIndex {c c' : Catalog} {s s' : PageStore TablePage}
    {indexName tableName : String} {keyAttrs : List Nat} {oid : Option Nat}
    (h : c.createIndex s indexName tableName keyAttrs = some (oid, c', s')) :
    (createIndex indexName tableName keyAttrs).run c s = some (.index oid, c', s') := by
  rw [run, h]
  rfl

/-- A call of a history, with the catalogs before and after it. -/
structure CatalogTurn where
  before : Catalog
  result : CallResult
  after : Catalog

/-- The calls one after the other. -/
def catalogRun : Catalog → PageStore TablePage → List CatalogCall →
    Option (List CatalogTurn × Catalog × PageStore TablePage)
  | c, s, [] => some ([], c, s)
  | c, s, call :: calls => do
    let (result, c', s) ← call.run c s
    let (turns, c'', s) ← catalogRun c' s calls
    return (⟨c, result, c'⟩ :: turns, c'', s)

/-! ## What a call keeps -/

/-- Between two calls a counter went up from `next` to `next'`, or has wrapped around; the call
handed out the oid in `handed`. -/
structure CallOids (next : Nat) (handed : Option Nat) (next' : Nat) : Prop where
  oid : ∀ oid, handed = some oid → (next ≠ 0 ∧ next ≤ oid) ∧ (next' ≠ 0 → oid < next')
  le : next' ≠ 0 → next ≠ 0 ∧ next ≤ next'

theorem CallOids.same {next : Nat} : CallOids next none next where
  oid := fun _ h => by cases h
  le := fun hne => ⟨hne, Nat.le_refl next⟩

/-- The oid is the value of the counter. -/
theorem CallOids.handed {next : Nat} (hlt : next < 2 ^ 32) (hne : next ≠ 0) :
    CallOids next (some next) (nextOid next) where
  oid := by
    intro oid h
    obtain rfl := Option.some.inj h
    refine ⟨⟨hne, Nat.le_refl next⟩, fun hnext => ?_⟩
    rw [nextOid_eq hlt hnext]
    exact Nat.lt_succ_self next
  le := by
    intro hnext
    rw [nextOid_eq hlt hnext]
    exact ⟨hne, Nat.le_succ next⟩

/-- **What one call keeps.** -/
structure CallOk (c : Catalog) (r : CallResult) (c' : Catalog) : Prop where
  catalog : CatalogOk c'
  inner : c'.InnerNonempty
  tableOids : CallOids c.nextTableOid r.tableOid c'.nextTableOid
  indexOids : CallOids c.nextIndexOid r.indexOid c'.nextIndexOid
  failed : r.Fails → c' = c

section Calls

variable {c c' : Catalog} {s s' : PageStore TablePage}

/-- A call that fails. -/
theorem CallOk.unchanged (hok : CatalogOk c) (hinner : c.InnerNonempty) {r : CallResult}
    (htable : r.tableOid = none) (hindex : r.indexOid = none) : CallOk c r c where
  catalog := hok
  inner := hinner
  tableOids := htable ▸ .same
  indexOids := hindex ▸ .same
  failed := fun _ => rfl

theorem createTable_callOk (hok : CatalogOk c) (hinner : c.InnerNonempty)
    (hroom : c.nextTableOid ≠ 0) {name : String} {schema : Schema} {oid : Option Nat}
    (h : c.createTable s name schema = (oid, c', s')) : CallOk c (.table oid) c' := by
  have hok' := hok.createTable hroom h
  rw [Catalog.createTable] at h
  split at h
  · obtain ⟨rfl, hc⟩ := Prod.mk.inj h
    obtain ⟨rfl, -⟩ := Prod.mk.inj hc
    exact .unchanged hok hinner rfl rfl
  · obtain ⟨rfl, hc⟩ := Prod.mk.inj h
    obtain ⟨rfl, -⟩ := Prod.mk.inj hc
    refine ⟨hok', hinner, .handed hok.nextTableOid_lt hroom, .same, fun h => ?_⟩
    cases h

theorem createIndex_callOk (hok : CatalogOk c) (hinner : c.InnerNonempty)
    (hroom : c.nextIndexOid ≠ 0) {name table : String} {keyAttrs : List Nat} {oid : Option Nat}
    (h : c.createIndex s name table keyAttrs = some (oid, c', s')) : CallOk c (.index oid) c' := by
  have hok' := hok.createIndex hroom h
  obtain ⟨rfl, rfl, -⟩ | ⟨info, columns, index, rfl, -, -, -, -, rfl⟩ := createIndex_cases h
  · exact .unchanged hok hinner rfl rfl
  · refine ⟨hok', fun {t names} hnames => ?_, .same, .handed hok.nextIndexOid_lt hroom,
      fun h => ?_⟩
    · rw [lookup_insert_eq] at hnames
      split at hnames
      · -- the names of the table have the new one
        obtain rfl := Option.some.inj hnames
        intro hempty
        have hlookup := AList.lookup_insert (b := c.nextIndexOid) (a := name)
          ((c.indexNames.lookup table).getD ∅)
        rw [hempty] at hlookup
        cases hlookup
      · exact hinner hnames
    · cases h

/-- `DropIndex` removes the names of a table with the last of them. -/
theorem innerNonempty_dropIndex (hinner : c.InnerNonempty) {name table : String} {done : Bool}
    (h : c.dropIndex name table = (done, c')) : c'.InnerNonempty := by
  rw [Catalog.dropIndex] at h
  cases hnames : c.indexNames.lookup table with
  | none =>
    rw [hnames] at h
    obtain ⟨-, rfl⟩ := Prod.mk.inj h
    exact hinner
  | some names =>
    simp only [hnames] at h
    cases hoid : names.lookup name with
    | none =>
      rw [hoid] at h
      obtain ⟨-, rfl⟩ := Prod.mk.inj h
      exact hinner
    | some oid =>
      simp only [hoid] at h
      obtain ⟨-, rfl⟩ := Prod.mk.inj h
      intro t names' hnames'
      show names' ≠ ∅
      by_cases hempty : (names.erase name).entries = []
      · rw [if_pos hempty, lookup_erase_eq] at hnames'
        split at hnames'
        · cases hnames'
        · exact hinner hnames'
      · rw [if_neg hempty, lookup_insert_eq] at hnames'
        split at hnames'
        · obtain rfl := Option.some.inj hnames'
          rintro heq
          exact hempty (congrArg AList.entries heq)
        · exact hinner hnames'

theorem dropIndex_callOk (hok : CatalogOk c) (hinner : c.InnerNonempty) {name table : String}
    {done : Bool} (h : c.dropIndex name table = (done, c')) : CallOk c (.dropped done) c' := by
  obtain ⟨-, rfl, -⟩ | ⟨oid, hdone, -, htable, hindex, -⟩ := dropIndex_cases h
  · exact .unchanged hok hinner rfl rfl
  · refine ⟨hok.dropIndex h, innerNonempty_dropIndex hinner h, htable ▸ .same, hindex ▸ .same,
      fun hfails => ?_⟩
    rw [show done = false from hfails] at hdone
    cases hdone

/-- **What one call keeps**, whatever is in the pages, while the oids have not wrapped around. -/
theorem CatalogCall.run_ok (hok : CatalogOk c) (hinner : c.InnerNonempty) {call : CatalogCall}
    (htable : call.createsTable = true → c.nextTableOid ≠ 0)
    (hindex : call.createsIndex = true → c.nextIndexOid ≠ 0)
    {r : CallResult} (h : call.run c s = some (r, c', s')) : CallOk c r c' := by
  cases call with
  | createTable name schema =>
    obtain ⟨rfl, hc⟩ := Prod.mk.inj (Option.some.inj h)
    obtain ⟨rfl, -⟩ := Prod.mk.inj hc
    exact createTable_callOk hok hinner (htable rfl) rfl
  | createIndex name table keyAttrs =>
    obtain ⟨⟨oid, c₁, s₁⟩, hcreate, heq⟩ := Option.map_eq_some_iff.mp h
    obtain ⟨rfl, hc⟩ := Prod.mk.inj heq
    obtain ⟨rfl, rfl⟩ := Prod.mk.inj hc
    exact createIndex_callOk hok hinner (hindex rfl) hcreate
  | dropIndex name table =>
    obtain ⟨rfl, hc⟩ := Prod.mk.inj (Option.some.inj h)
    obtain ⟨rfl, -⟩ := Prod.mk.inj hc
    exact dropIndex_callOk hok hinner rfl

theorem createTable_next {name : String} {schema : Schema} {oid : Option Nat}
    (h : c.createTable s name schema = (oid, c', s')) :
    (c'.nextTableOid = c.nextTableOid ∨ c'.nextTableOid = nextOid c.nextTableOid) ∧
      c'.nextIndexOid = c.nextIndexOid := by
  rw [Catalog.createTable] at h
  split at h
  · obtain ⟨rfl, -⟩ := Prod.mk.inj (Prod.mk.inj h).2
    exact ⟨.inl rfl, rfl⟩
  · obtain ⟨rfl, -⟩ := Prod.mk.inj (Prod.mk.inj h).2
    exact ⟨.inr rfl, rfl⟩

/-- The counters go up by one, and only for what they count. -/
theorem CatalogCall.run_next {call : CatalogCall} {r : CallResult}
    (h : call.run c s = some (r, c', s')) :
    (c'.nextTableOid = c.nextTableOid ∨
      call.createsTable = true ∧ c'.nextTableOid = nextOid c.nextTableOid) ∧
    (c'.nextIndexOid = c.nextIndexOid ∨
      call.createsIndex = true ∧ c'.nextIndexOid = nextOid c.nextIndexOid) := by
  cases call with
  | createTable name schema =>
    obtain ⟨-, hc⟩ := Prod.mk.inj (Option.some.inj h)
    obtain ⟨rfl, -⟩ := Prod.mk.inj hc
    obtain ⟨htable, hindex⟩ := @createTable_next c _ s _ name schema _ rfl
    exact ⟨htable.imp_right fun hnext => ⟨rfl, hnext⟩, .inl hindex⟩
  | createIndex name table keyAttrs =>
    obtain ⟨⟨oid, c₁, s₁⟩, hcreate, heq⟩ := Option.map_eq_some_iff.mp h
    obtain ⟨-, hc⟩ := Prod.mk.inj heq
    obtain ⟨rfl, rfl⟩ := Prod.mk.inj hc
    obtain ⟨-, rfl, -⟩ | ⟨info, columns, index, -, -, -, -, -, rfl⟩ := createIndex_cases hcreate
    · exact ⟨.inl rfl, .inl rfl⟩
    · exact ⟨.inl rfl, .inr ⟨rfl, rfl⟩⟩
  | dropIndex name table =>
    obtain ⟨-, hc⟩ := Prod.mk.inj (Option.some.inj h)
    obtain ⟨rfl, -⟩ := Prod.mk.inj hc
    obtain ⟨-, hsame, -⟩ | ⟨oid, -, -, htable, hindex, -⟩ :=
      @dropIndex_cases c (c.dropIndex name table).2 name table _ rfl
    · exact ⟨.inl (congrArg nextTableOid hsame), .inl (congrArg nextIndexOid hsame)⟩
    · exact ⟨.inl htable, .inl hindex⟩

end Calls

/-! ## Every call returns -/

/-- The tables have no tuples. -/
structure TablesEmpty (c : Catalog) (s : PageStore TablePage) : Prop where
  store : s.StoreOk
  heap : ∀ {oid table}, c.getTable oid = some table →
    ∃ chain, HeapRep table.table s chain ∧ chain.liveRids = []

namespace TablesEmpty

variable {c c' : Catalog} {s : PageStore TablePage}

/-- The tables are the same. -/
theorem congr (h : TablesEmpty c s) (htables : c'.tables = c.tables) : TablesEmpty c' s := by
  refine ⟨h.store, fun {oid table} htable => ?_⟩
  rw [getTable, htables] at htable
  exact h.heap htable

theorem createTable (h : TablesEmpty c s) (name : String) (schema : Schema) :
    TablesEmpty (c.createTable s name schema).2.1 (c.createTable s name schema).2.2 := by
  rw [Catalog.createTable]
  split
  · exact h
  · obtain ⟨hrep, hstore, -, hnext, hothers⟩ := TableHeap.create_spec h.store
    refine ⟨hstore, fun {oid table} htable => ?_⟩
    rw [getTable, lookup_insert_eq] at htable
    split at htable
    · -- the new table has one page without slots
      obtain rfl := Option.some.inj htable
      exact ⟨_, hrep, rfl⟩
    · obtain ⟨chain, hold, hlive⟩ := h.heap htable
      refine ⟨chain, hold.congr (fun e he => hothers e.1 (hold.allocated e he).2) ?_, hlive⟩
      rw [hnext]
      exact Int.le_of_lt (Int.lt_succ _)

/-- The loop of `CreateIndex` ends at once. -/
theorem fillIndex_point (h : TablesEmpty c s) {oid : Nat} {table : TableInfo}
    (htable : c.getTable oid = some table) {index : IndexInfo} {attr : Nat}
    (hattrs : index.keyAttrs = [attr])
    (htype : (table.schema.getColumn attr).map Column.type = some .integer) :
    Catalog.fillIndex table index s = some ({ index with supportsPointLookup := true }, s) := by
  obtain ⟨chain, hrep, hlive⟩ := h.heap htable
  have hbegin : table.table.begin s = some (TableHeap.endRid, s) := by
    rw [hrep.begin, hlive]
    rfl
  obtain ⟨fuel, hfuel⟩ := Nat.exists_eq_succ_of_ne_zero
    (Nat.ne_of_gt (Nat.zero_lt_of_lt hrep.length_liveRids_lt))
  rw [Catalog.fillIndex, hattrs]
  simp only [htype, if_true, hbegin, hfuel, buildFrom]

theorem fillIndex (h : TablesEmpty c s) {oid : Nat} {table : TableInfo}
    (htable : c.getTable oid = some table) (index : IndexInfo) :
    ∃ index', Catalog.fillIndex table index s = some (index', s) := by
  by_cases hpoint : ∃ attr, index.keyAttrs = [attr] ∧
      (table.schema.getColumn attr).map Column.type = some .integer
  · obtain ⟨attr, hattrs, htype⟩ := hpoint
    exact ⟨_, h.fillIndex_point htable hattrs htype⟩
  · refine ⟨index, ?_⟩
    rw [Catalog.fillIndex]
    split
    · rename_i attr hattrs
      exact if_neg fun htype => hpoint ⟨attr, hattrs, htype⟩
    · rfl

theorem createIndex (h : TablesEmpty c s) (name table : String) (keyAttrs : List Nat) :
    ∃ oid c', c.createIndex s name table keyAttrs = some (oid, c', s) ∧ c'.tables = c.tables := by
  rw [Catalog.createIndex]
  cases hinfo : c.getTableByName table with
  | none => exact ⟨_, _, rfl, rfl⟩
  | some info =>
    obtain ⟨oid, -, htable⟩ := Option.bind_eq_some_iff.mp hinfo
    dsimp only
    split
    · exact ⟨_, _, rfl, rfl⟩
    · split
      · exact ⟨_, _, rfl, rfl⟩
      · cases keyAttrs.mapM info.schema.getColumn with
        | none => exact ⟨_, _, rfl, rfl⟩
        | some columns =>
          obtain ⟨index, hfill⟩ := h.fillIndex htable
            (.create ⟨columns⟩ name table c.nextIndexOid keyAttrs)
          simp only [hfill]
          exact ⟨_, _, rfl, rfl⟩

/-- **A call on a catalog with empty tables returns.** -/
theorem exists_run (h : TablesEmpty c s) (call : CatalogCall) :
    ∃ r c' s', call.run c s = some (r, c', s') ∧ TablesEmpty c' s' := by
  cases call with
  | createTable name schema => exact ⟨_, _, _, rfl, h.createTable name schema⟩
  | createIndex name table keyAttrs =>
    obtain ⟨oid, c', hrun, htables⟩ := h.createIndex name table keyAttrs
    exact ⟨.index oid, c', s, CatalogCall.run_createIndex hrun, h.congr htables⟩
  | dropIndex name table =>
    refine ⟨_, _, _, rfl, h.congr ?_⟩
    obtain ⟨-, heq, -⟩ | ⟨oid, -, -, -, -, htables, -⟩ :=
      @dropIndex_cases c (c.dropIndex name table).2 name table _ rfl
    · exact congrArg tables heq
    · exact htables

end TablesEmpty

/-! ## Histories -/

/-- A counter with this value has oids left for so many calls. -/
def OidsLeft (next count : Nat) : Prop := count = 0 ∨ next ≠ 0 ∧ next + count ≤ 2 ^ 32

/-- One call less. -/
theorem OidsLeft.step {next next' count : Nat} {creates : Bool}
    (h : OidsLeft next (count + if creates then 1 else 0))
    (hnext : next' = next ∨ creates = true ∧ next' = nextOid next) : OidsLeft next' count := by
  rcases hnext with rfl | ⟨rfl, rfl⟩
  · rcases h with h | ⟨hne, hle⟩
    · exact .inl (Nat.eq_zero_of_add_eq_zero_right h)
    · exact .inr ⟨hne, Nat.le_trans (Nat.add_le_add_left (Nat.le_add_right _ _) _) hle⟩
  · obtain ⟨-, hle⟩ : next ≠ 0 ∧ next + (count + 1) ≤ 2 ^ 32 := h.resolve_left (Nat.succ_ne_zero _)
    by_cases hzero : count = 0
    · exact .inl hzero
    · -- there is another oid, so the counter does not wrap around
      have heq : nextOid next = next + 1 := Nat.mod_eq_of_lt (by omega)
      exact .inr ⟨by omega, by omega⟩

theorem OidsLeft.ne_zero {next count : Nat} {creates : Bool}
    (h : OidsLeft next (count + if creates then 1 else 0)) (hcreates : creates = true) :
    next ≠ 0 := by
  subst hcreates
  exact (h.resolve_left (Nat.succ_ne_zero _)).1

theorem catalogRun_cons {c c' c'' : Catalog} {s s' s'' : PageStore TablePage} {call : CatalogCall}
    {calls : List CatalogCall} {r : CallResult} {turns : List CatalogTurn}
    (hcall : call.run c s = some (r, c', s'))
    (hrun : catalogRun c' s' calls = some (turns, c'', s'')) :
    catalogRun c s (call :: calls) = some (⟨c, r, c'⟩ :: turns, c'', s'') := by
  rw [catalogRun, hcall]
  simp only [Option.bind_eq_bind, Option.bind_some, hrun]
  rfl

/-- What holds after a history from the catalog `c` on. -/
structure HistoryOk (c : Catalog) (turns : List CatalogTurn) (c' : Catalog) : Prop where
  catalog : CatalogOk c'
  inner : c'.InnerNonempty
  tableOids : (turns.filterMap fun turn => turn.result.tableOid).Pairwise (· < ·)
  indexOids : (turns.filterMap fun turn => turn.result.indexOid).Pairwise (· < ·)
  table_ge : ∀ oid ∈ turns.filterMap fun turn => turn.result.tableOid,
    c.nextTableOid ≠ 0 ∧ c.nextTableOid ≤ oid
  index_ge : ∀ oid ∈ turns.filterMap fun turn => turn.result.indexOid,
    c.nextIndexOid ≠ 0 ∧ c.nextIndexOid ≤ oid
  failed : ∀ turn ∈ turns, turn.result.Fails → turn.after = turn.before

/-- The oids of a counter over one more call: they go up, from the value of the counter on. -/
theorem CallOids.cons {next next' : Nat} {handed : Option Nat} (hcall : CallOids next handed next')
    {f : CatalogTurn → Option Nat} {turn : CatalogTurn} {turns : List CatalogTurn}
    (hturn : f turn = handed) (hup : (turns.filterMap f).Pairwise (· < ·))
    (hge : ∀ oid ∈ turns.filterMap f, next' ≠ 0 ∧ next' ≤ oid) :
    ((turn :: turns).filterMap f).Pairwise (· < ·) ∧
      ∀ oid ∈ (turn :: turns).filterMap f, next ≠ 0 ∧ next ≤ oid := by
  have hlater : ∀ oid ∈ turns.filterMap f, next ≠ 0 ∧ next ≤ oid := fun oid hmem => by
    obtain ⟨hne, hle⟩ := hcall.le (hge oid hmem).1
    exact ⟨hne, Nat.le_trans hle (hge oid hmem).2⟩
  cases handed with
  | none =>
    rw [List.filterMap_cons_none hturn]
    exact ⟨hup, hlater⟩
  | some oid =>
    obtain ⟨hfirst, hlt⟩ := hcall.oid oid rfl
    rw [List.filterMap_cons_some hturn]
    constructor
    · refine List.pairwise_cons.mpr ⟨fun oid' hmem => ?_, hup⟩
      exact Nat.lt_of_lt_of_le (hlt (hge oid' hmem).1) (hge oid' hmem).2
    · exact List.forall_mem_cons.mpr ⟨hfirst, hlater⟩

/-- One more call before a history. -/
theorem HistoryOk.cons {c c' c'' : Catalog} {r : CallResult} {turns : List CatalogTurn}
    (hcall : CallOk c r c') (h : HistoryOk c' turns c'') :
    HistoryOk c (⟨c, r, c'⟩ :: turns) c'' := by
  obtain ⟨htables, htable⟩ :=
    @CallOids.cons _ _ _ hcall.tableOids _ ⟨c, r, c'⟩ _ rfl h.tableOids h.table_ge
  obtain ⟨hindexes, hindex⟩ :=
    @CallOids.cons _ _ _ hcall.indexOids _ ⟨c, r, c'⟩ _ rfl h.indexOids h.index_ge
  exact ⟨h.catalog, h.inner, htables, hindexes, htable, hindex,
    List.forall_mem_cons.mpr ⟨hcall.failed, h.failed⟩⟩

/-- **Every history returns** if there are oids left for it, by induction on its calls. -/
theorem catalogRun_historyOk (calls : List CatalogCall) : ∀ {c : Catalog} {s : PageStore TablePage},
    CatalogOk c → c.InnerNonempty → TablesEmpty c s →
    OidsLeft c.nextTableOid (calls.countP CatalogCall.createsTable) →
    OidsLeft c.nextIndexOid (calls.countP CatalogCall.createsIndex) →
    ∃ turns c' s', catalogRun c s calls = some (turns, c', s') ∧ HistoryOk c turns c' := by
  induction calls with
  | nil =>
    intro c s hok hinner hempty _ _
    exact ⟨[], c, s, rfl, hok, hinner, .nil, .nil, fun _ hmem => absurd hmem List.not_mem_nil,
      fun _ hmem => absurd hmem List.not_mem_nil, fun _ hmem => absurd hmem List.not_mem_nil⟩
  | cons call calls ih =>
    intro c s hok hinner hempty htables hindexes
    rw [List.countP_cons] at htables hindexes
    obtain ⟨r, c', s', hcall, hempty'⟩ := hempty.exists_run call
    obtain ⟨htable, hindex⟩ := CatalogCall.run_next hcall
    have hcallOk := CatalogCall.run_ok hok hinner htables.ne_zero hindexes.ne_zero hcall
    obtain ⟨turns, c'', s'', hrun, hhistory⟩ := ih hcallOk.catalog hcallOk.inner hempty'
      (htables.step htable) (hindexes.step hindex)
    exact ⟨⟨c, r, c'⟩ :: turns, c'', s'', catalogRun_cons hcall hrun, .cons hcallOk hhistory⟩

/-- **The catalog stays consistent** through every history on a new catalog that creates fewer
than `2 ^ 32` tables and fewer than `2 ^ 32` indexes: no lookup throws, no oid is handed out twice,
and a call that fails changes nothing. -/
theorem catalogRun_consistent {calls : List CatalogCall}
    (htables : calls.countP CatalogCall.createsTable < 2 ^ 32)
    (hindexes : calls.countP CatalogCall.createsIndex < 2 ^ 32) {s : PageStore TablePage}
    (hs : s.StoreOk) :
    ∃ turns c s', catalogRun {} s calls = some (turns, c, s') ∧ c.Consistent ∧
      (turns.filterMap fun turn => turn.result.tableOid).Pairwise (· < ·) ∧
      (turns.filterMap fun turn => turn.result.indexOid).Pairwise (· < ·) ∧
      ∀ turn ∈ turns, turn.result.Fails → turn.after = turn.before := by
  have hempty : TablesEmpty {} s := ⟨hs, fun h => by simp [getTable] at h⟩
  obtain ⟨turns, c, s', hrun, h⟩ :=
    catalogRun_historyOk calls .empty (fun h => by simp at h) hempty
      (.inr ⟨Nat.one_ne_zero, Nat.one_add _ ▸ htables⟩)
      (.inr ⟨Nat.one_ne_zero, Nat.one_add _ ▸ hindexes⟩)
  exact ⟨turns, c, s', hrun, h.catalog.consistent h.inner, h.tableOids, h.indexOids, h.failed⟩

/-- A table with an index that is dropped and created again. -/
theorem catalogRun_consistent_again :
    ∃ turns c s', catalogRun {} emptyStore
        [.createTable "t" ⟨[⟨"a", .integer, 0, 0⟩]⟩, .createIndex "i" "t" [0],
          .createTable "t" ⟨[]⟩, .createIndex "j" "t" [1], .dropIndex "i" "t",
          .createIndex "i" "t" [0]] = some (turns, c, s') ∧
      c.Consistent ∧ (turns.filterMap fun turn => turn.result.indexOid).Pairwise (· < ·) := by
  obtain ⟨turns, c, s', hrun, hconsistent, -, hoids, -⟩ := @catalogRun_consistent
    [.createTable "t" ⟨[⟨"a", .integer, 0, 0⟩]⟩, .createIndex "i" "t" [0],
      .createTable "t" ⟨[]⟩, .createIndex "j" "t" [1], .dropIndex "i" "t",
      .createIndex "i" "t" [0]] (by decide) (by decide) _ emptyStore_ok
  exact ⟨turns, c, s', hrun, hconsistent, hoids⟩

/-! ## When the oids wrap around -/

/-- An index that is created and dropped again, so many times. -/
def recreate (indexName tableName : String) (keyAttrs : List Nat) : Nat → List CatalogCall
  | 0 => []
  | n + 1 => .createIndex indexName tableName keyAttrs :: .dropIndex indexName tableName ::
      recreate indexName tableName keyAttrs n

/-- A table and the names of its indexes. -/
structure Indexed (c : Catalog) (tableName : String) (info : TableInfo)
    (names : UnorderedMap String Nat) : Prop where
  table : c.getTableByName tableName = some info
  names : (c.indexNames.lookup tableName).getD ∅ = names

/-- A new entry that is erased again. -/
theorem erase_insert_eq {K V : Type} [DecidableEq K] {m : UnorderedMap K V} {a : K} (v : V)
    (h : a ∉ m) : (m.insert a v).erase a = m := by
  apply AList.ext
  show List.kerase a (m.insert a v).entries = m.entries
  rw [AList.entries_insert_of_notMem h]
  exact List.kerase_cons_eq rfl

section WrapAround

variable {c : Catalog} {s : PageStore TablePage} {indexName tableName : String}
  {keyAttrs : List Nat} {info : TableInfo} {names : UnorderedMap String Nat} {columns : List Column}

/-- An index with a new name gets the value of the counter as its oid, whatever index has it. -/
theorem Indexed.createIndex (h : Indexed c tableName info names) (hempty : TablesEmpty c s)
    (hname : indexName ≠ "") (hattrs : keyAttrs ≠ []) (hnew : indexName ∉ names)
    (hcolumns : keyAttrs.mapM info.schema.getColumn = some columns) :
    ∃ index c', Catalog.fillIndex info
        (.create ⟨columns⟩ indexName tableName c.nextIndexOid keyAttrs) s = some (index, s) ∧
      c.createIndex s indexName tableName keyAttrs = some (some c.nextIndexOid, c', s) ∧
      c'.getIndex c.nextIndexOid = some index ∧ c'.tables = c.tables ∧
      c'.nextIndexOid = nextOid c.nextIndexOid ∧ c'.getTableByName tableName = some info ∧
      c'.indexNames.lookup tableName = some (names.insert indexName c.nextIndexOid) := by
  obtain ⟨oid, -, htable⟩ := Option.bind_eq_some_iff.mp h.table
  obtain ⟨index, hfill⟩ := hempty.fillIndex htable
    (.create ⟨columns⟩ indexName tableName c.nextIndexOid keyAttrs)
  have hnone : c.getIndexByName indexName tableName = none := by
    rw [getIndexByName, indexOid]
    cases hlookup : c.indexNames.lookup tableName with
    | none => rfl
    | some names' =>
      have hsame : names' = names := by
        rw [← h.names, hlookup]
        rfl
      rw [Option.bind_some, hsame, AList.lookup_eq_none.mpr hnew]
      rfl
  refine ⟨index, { c with
    nextIndexOid := nextOid c.nextIndexOid
    indexes := c.indexes.insert c.nextIndexOid index
    indexNames := c.indexNames.insert tableName (names.insert indexName c.nextIndexOid) },
    hfill, ?_, AList.lookup_insert _, rfl, rfl, h.table, AList.lookup_insert _⟩
  rw [Catalog.createIndex, h.table]
  simp only [hname, hattrs, or_self, if_false, hnone, Option.isSome_none, Bool.false_eq_true,
    hcolumns, hfill, h.names]

/-- The newest index of a table is dropped. -/
theorem dropIndex_last {c₁ : Catalog} {oid : Nat} (hnew : indexName ∉ names)
    (htable : c₁.getTableByName tableName = some info)
    (hnames : c₁.indexNames.lookup tableName = some (names.insert indexName oid)) :
    ∃ c₂, c₁.dropIndex indexName tableName = (true, c₂) ∧ Indexed c₂ tableName info names ∧
      c₂.tables = c₁.tables ∧ c₂.nextIndexOid = c₁.nextIndexOid := by
  refine ⟨{ c₁ with
    indexes := c₁.indexes.erase oid
    indexNames := if names.entries = [] then c₁.indexNames.erase tableName
      else c₁.indexNames.insert tableName names }, ?_, ⟨htable, ?_⟩, rfl, rfl⟩
  · rw [dropIndex, hnames]
    simp only [AList.lookup_insert, erase_insert_eq oid hnew]
  · by_cases hnil : names.entries = []
    · -- the table had no other index
      simp only [hnil, if_true, AList.lookup_erase]
      exact (AList.ext hnil).symm
    · simp only [hnil, if_false, AList.lookup_insert]
      rfl

/-- **An index that is created and dropped again** leaves nothing but its oid behind. -/
theorem Indexed.recreate (h : Indexed c tableName info names) (hempty : TablesEmpty c s)
    (hname : indexName ≠ "") (hattrs : keyAttrs ≠ []) (hnew : indexName ∉ names)
    (hcolumns : keyAttrs.mapM info.schema.getColumn = some columns) :
    ∃ c₁ c₂, c.createIndex s indexName tableName keyAttrs = some (some c.nextIndexOid, c₁, s) ∧
      c₁.dropIndex indexName tableName = (true, c₂) ∧ Indexed c₂ tableName info names ∧
      c₂.tables = c.tables ∧ c₂.nextIndexOid = nextOid c.nextIndexOid := by
  obtain ⟨index, c₁, -, hcreate, -, htables, hnext, htable, hnames⟩ :=
    h.createIndex hempty hname hattrs hnew hcolumns
  obtain ⟨c₂, hdrop, hindexed, htables', hnext'⟩ := dropIndex_last hnew htable hnames
  exact ⟨c₁, c₂, hcreate, hdrop, hindexed, htables'.trans htables, hnext'.trans hnext⟩

/-- So many indexes, one after the other, each with an oid below `2 ^ 32`. -/
theorem catalogRun_recreate (hname : indexName ≠ "") (hattrs : keyAttrs ≠ [])
    (hnew : indexName ∉ names) (hcolumns : keyAttrs.mapM info.schema.getColumn = some columns)
    (n : Nat) : ∀ {c : Catalog}, Indexed c tableName info names → TablesEmpty c s →
      c.nextIndexOid < 2 ^ 32 →
      ∃ turns c', catalogRun c s (recreate indexName tableName keyAttrs n) = some (turns, c', s) ∧
        (turns.filterMap fun turn => turn.result.indexOid).length = n ∧
        ∀ oid ∈ turns.filterMap fun turn => turn.result.indexOid, oid < 2 ^ 32 := by
  induction n with
  | zero =>
    intro c _ _ _
    exact ⟨[], c, rfl, rfl, fun _ hmem => absurd hmem List.not_mem_nil⟩
  | succ n ih =>
    intro c hindexed hempty hlt
    obtain ⟨c₁, c₂, hcreate, hdrop, hindexed', htables, hnext⟩ :=
      hindexed.recreate hempty hname hattrs hnew hcolumns
    obtain ⟨turns, c', hrun, hlength, hbound⟩ := ih hindexed' (hempty.congr htables)
      (hnext ▸ nextOid_lt _)
    have hfirst := CatalogCall.run_createIndex hcreate
    have hsecond : (CatalogCall.dropIndex indexName tableName).run c₁ s =
        some (.dropped true, c₂, s) := by
      rw [CatalogCall.run, hdrop]
    refine ⟨_, c', catalogRun_cons hfirst (catalogRun_cons hsecond hrun), ?_, ?_⟩
    · exact congrArg Nat.succ hlength
    · exact List.forall_mem_cons.mpr ⟨hlt, hbound⟩

/-- More numbers than there are below a bound are not all different. -/
theorem not_nodup_of_bounded {l : List Nat} {bound : Nat} (hbound : ∀ i ∈ l, i < bound)
    (hlength : bound < l.length) : ¬ l.Nodup := by
  intro hnodup
  have hsub :=
    (List.subperm_of_subset hnodup fun i hi => List.mem_range.mpr (hbound i hi)).length_le
  rw [List.length_range] at hsub
  exact absurd hlength (Nat.not_lt.mpr hsub)

end WrapAround

/-- **An oid is handed out again**: with an index `i` there, an index `j` is created and dropped
`2 ^ 32` times. -/
theorem catalogRun_reuses :
    ∃ turns c s, catalogRun {} emptyStore (.createTable "t" ⟨[⟨"a", .boolean, 0, 0⟩]⟩ ::
        .createIndex "i" "t" [0] :: recreate "j" "t" [0] (2 ^ 32)) = some (turns, c, s) ∧
      ¬ (turns.filterMap fun turn => turn.result.indexOid).Nodup := by
  have hempty : TablesEmpty {} emptyStore := ⟨emptyStore_ok, fun h => by simp [getTable] at h⟩
  have htable := hempty.createTable "t" ⟨[⟨"a", .boolean, 0, 0⟩]⟩
  have hindexed : Indexed (Catalog.createTable {} emptyStore "t"
      ⟨[⟨"a", .boolean, 0, 0⟩]⟩).2.1 "t" _ ∅ := ⟨rfl, rfl⟩
  obtain ⟨index, c₁, -, hcreate, -, htables, hnext, htable₁, hnames⟩ :=
    hindexed.createIndex htable (by decide : "i" ≠ "") (List.cons_ne_nil 0 [])
      (AList.notMem_empty _) rfl
  have hfirst := CatalogCall.run_createIndex hcreate
  have hnew : "j" ∉ (∅ : UnorderedMap String Nat).insert "i" 1 := by
    rw [AList.mem_insert]
    decide
  obtain ⟨turns, c, hrun, hlength, hbound⟩ := catalogRun_recreate (by decide : "j" ≠ "")
    (List.cons_ne_nil 0 []) hnew rfl (2 ^ 32) ⟨htable₁, congrArg (Option.getD · ∅) hnames⟩
    (htable.congr htables) (hnext ▸ nextOid_lt 1)
  refine ⟨_, c, _, catalogRun_cons rfl (catalogRun_cons hfirst hrun), not_nodup_of_bounded
    (List.forall_mem_cons.mpr ⟨(by decide : 1 < 2 ^ 32), hbound⟩) ?_⟩
  show 2 ^ 32 < (turns.filterMap fun turn => turn.result.indexOid).length + 1
  rw [hlength]
  exact Nat.lt_succ_self _

/-! ## The oids of the tables -/

namespace Catalog

/-- A table has the oid under which it is in the map. -/
def TableOids (c : Catalog) : Prop :=
  ∀ {oid table}, c.getTable oid = some table → table.oid = oid

variable {c c' : Catalog} {s s' : PageStore TablePage}

theorem TableOids.empty : ({} : Catalog).TableOids := fun h => by simp [getTable] at h

theorem TableOids.createTable (h : c.TableOids) {name : String} {schema : Schema}
    {oid : Option Nat} (hcreate : c.createTable s name schema = (oid, c', s')) : c'.TableOids := by
  rw [Catalog.createTable] at hcreate
  split at hcreate
  · obtain ⟨-, hc⟩ := Prod.mk.inj hcreate
    obtain ⟨rfl, -⟩ := Prod.mk.inj hc
    exact h
  · obtain ⟨-, hc⟩ := Prod.mk.inj hcreate
    obtain ⟨rfl, -⟩ := Prod.mk.inj hc
    intro oid' table htable
    rw [getTable, lookup_insert_eq] at htable
    split at htable
    · rename_i hoid
      obtain rfl := Option.some.inj htable
      exact hoid.symm
    · exact h htable

theorem TableOids.of_tables (h : c.TableOids) (htables : c'.tables = c.tables) :
    c'.TableOids := by
  intro oid table htable
  rw [getTable, htables] at htable
  exact h htable

end Catalog

/-- One call keeps the oids of the tables. -/
theorem CatalogCall.run_tableOids {c c' : Catalog} {s s' : PageStore TablePage}
    (h : c.TableOids) {call : CatalogCall} {r : CallResult}
    (hrun : call.run c s = some (r, c', s')) : c'.TableOids := by
  cases call with
  | createTable name schema =>
    obtain ⟨-, hc⟩ := Prod.mk.inj (Option.some.inj hrun)
    obtain ⟨rfl, -⟩ := Prod.mk.inj hc
    exact h.createTable rfl
  | createIndex name table keyAttrs =>
    obtain ⟨⟨oid, c₁, s₁⟩, hcreate, heq⟩ := Option.map_eq_some_iff.mp hrun
    obtain ⟨-, hc⟩ := Prod.mk.inj heq
    obtain ⟨rfl, rfl⟩ := Prod.mk.inj hc
    obtain ⟨-, rfl, -⟩ | ⟨info, columns, index, -, -, -, -, -, rfl⟩ := createIndex_cases hcreate
    · exact h
    · exact h.of_tables rfl
  | dropIndex name table =>
    obtain ⟨-, hc⟩ := Prod.mk.inj (Option.some.inj hrun)
    obtain ⟨rfl, -⟩ := Prod.mk.inj hc
    obtain ⟨-, hsame, -⟩ | ⟨oid, -, -, -, -, htables, -⟩ :=
      dropIndex_cases (c := c) rfl
    · exact h.of_tables (congrArg Catalog.tables hsame)
    · exact h.of_tables htables

/-- **In every history the tables have their oids.** -/
theorem catalogRun_tableOids (calls : List CatalogCall) :
    ∀ {c c' : Catalog} {s s' : PageStore TablePage} {turns : List CatalogTurn}, c.TableOids →
      catalogRun c s calls = some (turns, c', s') → c'.TableOids := by
  induction calls with
  | nil =>
    intro c c' s s' turns h hrun
    obtain ⟨-, hc⟩ := Prod.mk.inj (Option.some.inj hrun)
    obtain ⟨rfl, -⟩ := Prod.mk.inj hc
    exact h
  | cons call calls ih =>
    intro c c' s s' turns h hrun
    rw [catalogRun] at hrun
    obtain ⟨⟨r, c₁, s₁⟩, hcall, hrun⟩ := Option.bind_eq_some_iff.mp hrun
    obtain ⟨⟨turns', c₂, s₂⟩, hrest, hrun⟩ := Option.bind_eq_some_iff.mp hrun
    obtain ⟨-, hc⟩ := Prod.mk.inj (Option.some.inj hrun)
    obtain ⟨rfl, -⟩ := Prod.mk.inj hc
    exact ih (CatalogCall.run_tableOids h hcall) hrest

end OneBase
