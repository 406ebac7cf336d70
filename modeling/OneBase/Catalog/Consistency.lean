import OneBase.Catalog.Catalog
import OneBase.Lib.MapM

/-!
# Consistency of the catalog

The names and the oids of tables and indexes lead to each other, and every index
belongs to a table that has its key columns.

- `createIndex_cases`, `dropIndex_cases`: what the two operations can do.
- `CatalogOk.createTable`, `CatalogOk.createIndex`, `CatalogOk.dropIndex`: the
  catalog stays consistent.
- `mem_getTableIndexes`: the indexes of a table are found by its name.
-/

namespace OneBase

open Catalog

/-- The key columns of the index are columns of the table, and a point lookup is on
one INTEGER column. -/
structure IndexOn (table : TableInfo) (index : IndexInfo) : Prop where
  attrs : ∀ attr ∈ index.keyAttrs, attr < table.schema.getColumnCount
  point : index.supportsPointLookup = true → ∃ attr, index.keyAttrs = [attr] ∧
    (table.schema.getColumn attr).map Column.type = some .integer

/-- The four maps fit together, and no oid of theirs is handed out again before the counter has
wrapped around. -/
structure CatalogOk (c : Catalog) : Prop where
  table_of_name : ∀ {name oid}, c.tableNames.lookup name = some oid →
    ∃ table, c.getTable oid = some table ∧ table.name = name
  name_of_table : ∀ {oid table}, c.getTable oid = some table →
    c.tableNames.lookup table.name = some oid
  table_lt : ∀ {oid table}, c.getTable oid = some table → c.nextTableOid ≠ 0 →
    oid < c.nextTableOid
  nextTableOid_lt : c.nextTableOid < 2 ^ 32
  index_of_name : ∀ {table name oid}, c.indexOid table name = some oid →
    ∃ index, c.getIndex oid = some index ∧ index.tableName = table ∧ index.name = name
  name_of_index : ∀ {oid index}, c.getIndex oid = some index →
    c.indexOid index.tableName index.name = some oid
  index_lt : ∀ {oid index}, c.getIndex oid = some index → c.nextIndexOid ≠ 0 →
    oid < c.nextIndexOid
  nextIndexOid_lt : c.nextIndexOid < 2 ^ 32
  index_oid : ∀ {oid index}, c.getIndex oid = some index → index.oid = oid
  index_table : ∀ {oid index}, c.getIndex oid = some index →
    ∃ toid table, c.tableNames.lookup index.tableName = some toid ∧
      c.getTable toid = some table ∧ IndexOn table index

/-- The catalog of a new database. -/
theorem CatalogOk.empty : CatalogOk {} where
  table_of_name := fun h => by simp at h
  name_of_table := fun h => by simp [getTable] at h
  table_lt := fun h => by simp [getTable] at h
  nextTableOid_lt := by decide
  index_of_name := fun h => by simp [indexOid] at h
  name_of_index := fun h => by simp [getIndex] at h
  index_lt := fun h => by simp [getIndex] at h
  nextIndexOid_lt := by decide
  index_oid := fun h => by simp [getIndex] at h
  index_table := fun h => by simp [getIndex] at h

/-- Lookup after an insertion, as one equation. -/
theorem lookup_insert_eq {K V : Type} [DecidableEq K] (m : UnorderedMap K V) (a b : K) (v : V) :
    (m.insert a v).lookup b = if b = a then some v else m.lookup b := by
  by_cases h : b = a
  · subst h
    rw [if_pos rfl, AList.lookup_insert]
  · rw [if_neg h, AList.lookup_insert_ne h]

/-- Lookup after a deletion, as one equation. -/
theorem lookup_erase_eq {K V : Type} [DecidableEq K] (m : UnorderedMap K V) (a b : K) :
    (m.erase a).lookup b = if b = a then none else m.lookup b := by
  by_cases h : b = a
  · subst h
    rw [if_pos rfl, AList.lookup_erase]
  · rw [if_neg h, AList.lookup_erase_ne h]

namespace CatalogOk

variable {c : Catalog}

theorem getTableByName (hok : CatalogOk c) {name : String} {table : TableInfo}
    (h : c.getTableByName name = some table) :
    ∃ oid, c.tableNames.lookup name = some oid ∧ c.getTable oid = some table ∧
      table.name = name := by
  obtain ⟨oid, hname, htable⟩ := Option.bind_eq_some_iff.mp h
  obtain ⟨table', htable', hname'⟩ := hok.table_of_name hname
  rw [htable] at htable'
  obtain rfl := Option.some.inj htable'
  exact ⟨oid, hname, htable, hname'⟩

/-- The column of an index that supports point lookups. -/
theorem point (hok : CatalogOk c) {toid ioid : Nat} {table : TableInfo} {index : IndexInfo}
    (htable : c.getTable toid = some table) (hindex : c.getIndex ioid = some index)
    (hname : index.tableName = table.name) (hpoint : index.supportsPointLookup = true) :
    ∃ attr, index.keyAttrs = [attr] ∧
      (table.schema.getColumn attr).map Column.type = some .integer := by
  obtain ⟨toid', table', hname', htable', hon⟩ := hok.index_table hindex
  have hoid := hok.name_of_table htable
  rw [← hname, hname'] at hoid
  obtain rfl := Option.some.inj hoid
  rw [htable] at htable'
  obtain rfl := Option.some.inj htable'
  exact hon.point hpoint

/-! ## Tables -/

/-- **A new table** keeps the catalog consistent, if the oids have not wrapped around. -/
theorem createTable (hok : CatalogOk c) (hroom : c.nextTableOid ≠ 0)
    {s s' : PageStore TablePage} {name : String} {schema : Schema} {r : Option Nat} {c' : Catalog}
    (h : c.createTable s name schema = (r, c', s')) : CatalogOk c' := by
  rw [Catalog.createTable] at h
  split at h
  · obtain ⟨-, hc⟩ := Prod.mk.inj h
    obtain ⟨rfl, -⟩ := Prod.mk.inj hc
    exact hok
  · rename_i hnew
    have hnone : c.tableNames.lookup name = none := AList.lookup_eq_none.mpr hnew
    obtain ⟨-, hc⟩ := Prod.mk.inj h
    obtain ⟨rfl, -⟩ := Prod.mk.inj hc
    constructor
    case table_of_name =>
      intro n oid hn
      rw [lookup_insert_eq] at hn
      simp only [getTable, lookup_insert_eq]
      split at hn
      · rename_i heq
        obtain rfl := Option.some.inj hn
        exact ⟨_, if_pos rfl, heq.symm⟩
      · obtain ⟨table, htable, hname⟩ := hok.table_of_name hn
        have hne : oid ≠ c.nextTableOid := Nat.ne_of_lt (hok.table_lt htable hroom)
        exact ⟨table, by rw [if_neg hne]; exact htable, hname⟩
    case name_of_table =>
      intro oid table htable
      simp only [getTable, lookup_insert_eq] at htable
      rw [lookup_insert_eq]
      split at htable
      · rename_i heq
        obtain rfl := Option.some.inj htable
        rw [if_pos rfl, heq]
      · have hname := hok.name_of_table htable
        have hne : table.name ≠ name := by
          rintro rfl
          rw [hnone] at hname
          cases hname
        rw [if_neg hne, hname]
    case table_lt =>
      intro oid table htable hne
      show oid < nextOid c.nextTableOid
      rw [nextOid_eq hok.nextTableOid_lt hne]
      simp only [getTable, lookup_insert_eq] at htable
      split at htable
      · rename_i heq
        exact heq ▸ Nat.lt_succ_self _
      · exact Nat.lt_succ_of_lt (hok.table_lt htable hroom)
    case nextTableOid_lt => exact nextOid_lt _
    case index_of_name => exact hok.index_of_name
    case name_of_index => exact hok.name_of_index
    case index_lt => exact hok.index_lt
    case nextIndexOid_lt => exact hok.nextIndexOid_lt
    case index_oid => exact hok.index_oid
    case index_table =>
      intro oid index hindex
      obtain ⟨toid, table, hname, htable, hon⟩ := hok.index_table hindex
      have hne : index.tableName ≠ name := by
        rintro rfl
        rw [hnone] at hname
        cases hname
      have hne' : toid ≠ c.nextTableOid := Nat.ne_of_lt (hok.table_lt htable hroom)
      refine ⟨toid, table, ?_, ?_, hon⟩
      · rw [lookup_insert_eq, if_neg hne, hname]
      · rw [getTable, lookup_insert_eq, if_neg hne']
        exact htable

/-! ## Indexes -/

/-- **The indexes of a table** are found by its name. -/
theorem mem_getTableIndexes (hok : CatalogOk c) {name : String} {oid : Nat} :
    oid ∈ c.getTableIndexes name ↔
      ∃ index, c.getIndex oid = some index ∧ index.tableName = name := by
  have hmem : oid ∈ c.getTableIndexes name ↔ ∃ n, c.indexOid name n = some oid := by
    rw [getTableIndexes]
    cases hnames : c.indexNames.lookup name with
    | none => simp [indexOid, hnames]
    | some names =>
      simp only [indexOid, hnames, List.mem_map]
      constructor
      · rintro ⟨e, he, rfl⟩
        exact ⟨e.1, AList.mem_lookup_iff.mpr he⟩
      · rintro ⟨n, hn⟩
        exact ⟨⟨n, oid⟩, AList.mem_lookup_iff.mp hn, rfl⟩
  rw [hmem]
  constructor
  · rintro ⟨n, hn⟩
    obtain ⟨index, hindex, htable, -⟩ := hok.index_of_name hn
    exact ⟨index, hindex, htable⟩
  · rintro ⟨index, hindex, rfl⟩
    exact ⟨index.name, hok.name_of_index hindex⟩

/-- No index is listed twice. -/
theorem nodup_getTableIndexes (hok : CatalogOk c) (name : String) :
    (c.getTableIndexes name).Nodup := by
  rw [getTableIndexes]
  cases hnames : c.indexNames.lookup name with
  | none => exact List.nodup_nil
  | some names =>
    -- two names with the same oid are the name of the same index
    have hname : ∀ e ∈ names.entries, ∃ index, c.getIndex e.2 = some index ∧ index.name = e.1 := by
      intro e he
      have hoid : c.indexOid name e.1 = some e.2 := by
        rw [indexOid, hnames]
        exact AList.mem_lookup_iff.mpr he
      obtain ⟨index, hindex, -, hn⟩ := hok.index_of_name hoid
      exact ⟨index, hindex, hn⟩
    refine List.Nodup.map_on (fun e he e' he' heq => ?_) names.nodupKeys.nodup
    obtain ⟨index, hindex, hn⟩ := hname e he
    obtain ⟨index', hindex', hn'⟩ := hname e' he'
    rw [heq, hindex'] at hindex
    obtain rfl := Option.some.inj hindex
    exact Sigma.ext (hn.symm.trans hn') (heq_of_eq heq)

/-- Replacing the map of an index changes no name. -/
theorem setMap (hok : CatalogOk c) {oid : Nat} {index : IndexInfo}
    (hindex : c.getIndex oid = some index) (map : UnorderedMap Int32 (List RID)) :
    CatalogOk { c with indexes := c.indexes.insert oid { index with intRidMap := map } } := by
  -- an index of the new catalog is one of the old, apart from the map
  have hold : ∀ {o i}, (c.indexes.insert oid { index with intRidMap := map }).lookup o = some i →
      ∃ i', c.getIndex o = some i' ∧ i'.tableName = i.tableName ∧ i'.name = i.name ∧
        i'.keyAttrs = i.keyAttrs ∧ i'.supportsPointLookup = i.supportsPointLookup ∧
        i'.oid = i.oid := by
    intro o i h
    rw [lookup_insert_eq] at h
    split at h
    · rename_i heq
      subst heq
      obtain rfl := Option.some.inj h
      exact ⟨index, hindex, rfl, rfl, rfl, rfl, rfl⟩
    · exact ⟨i, h, rfl, rfl, rfl, rfl, rfl⟩
  constructor
  case table_of_name => exact hok.table_of_name
  case name_of_table => exact hok.name_of_table
  case table_lt => exact hok.table_lt
  case nextTableOid_lt => exact hok.nextTableOid_lt
  case index_of_name =>
    intro table name o ho
    obtain ⟨i, hi, htable, hname⟩ := hok.index_of_name ho
    by_cases heq : o = oid
    · subst heq
      rw [hindex] at hi
      obtain rfl := Option.some.inj hi
      exact ⟨_, AList.lookup_insert _, htable, hname⟩
    · exact ⟨i, (AList.lookup_insert_ne heq).trans hi, htable, hname⟩
  case name_of_index =>
    intro o i hi
    obtain ⟨i', hi', htable, hname, -⟩ := hold hi
    rw [← htable, ← hname]
    exact hok.name_of_index hi'
  case index_lt =>
    intro o i hi
    obtain ⟨i', hi', -⟩ := hold hi
    exact hok.index_lt hi'
  case nextIndexOid_lt => exact hok.nextIndexOid_lt
  case index_oid =>
    intro o i hi
    obtain ⟨i', hi', -, -, -, -, hoid⟩ := hold hi
    exact hoid.symm.trans (hok.index_oid hi')
  case index_table =>
    intro o i hi
    obtain ⟨i', hi', htable, -, hattrs, hpoint, -⟩ := hold hi
    obtain ⟨toid, table, hname, ht, hon⟩ := hok.index_table hi'
    exact ⟨toid, table, htable ▸ hname, ht, hattrs ▸ hon.attrs, hattrs ▸ hpoint ▸ hon.point⟩

end CatalogOk

/-- What `CreateIndex` can do. -/
theorem createIndex_cases {c c' : Catalog} {s s' : PageStore TablePage} {name table : String}
    {keyAttrs : List Nat} {r : Option Nat}
    (h : c.createIndex s name table keyAttrs = some (r, c', s')) :
    (r = none ∧ c' = c ∧ s' = s) ∨
      ∃ info columns index, r = some c.nextIndexOid ∧ c.getTableByName table = some info ∧
        c.getIndexByName name table = none ∧
        keyAttrs.mapM info.schema.getColumn = some columns ∧
        fillIndex info (.create ⟨columns⟩ name table c.nextIndexOid keyAttrs) s =
          some (index, s') ∧
        c' = { c with
          nextIndexOid := nextOid c.nextIndexOid
          indexes := c.indexes.insert c.nextIndexOid index
          indexNames := c.indexNames.insert table
            (((c.indexNames.lookup table).getD ∅).insert name c.nextIndexOid) } := by
  rw [createIndex] at h
  cases hinfo : c.getTableByName table with
  | none =>
    rw [hinfo] at h
    obtain ⟨rfl, rfl, rfl⟩ : _ ∧ _ ∧ _ := by simpa using h
    exact .inl ⟨rfl, rfl, rfl⟩
  | some info =>
    simp only [hinfo] at h
    split at h
    · obtain ⟨rfl, rfl, rfl⟩ : _ ∧ _ ∧ _ := by simpa using h
      exact .inl ⟨rfl, rfl, rfl⟩
    · split at h
      · obtain ⟨rfl, rfl, rfl⟩ : _ ∧ _ ∧ _ := by simpa using h
        exact .inl ⟨rfl, rfl, rfl⟩
      · rename_i hnone
        cases hcols : keyAttrs.mapM info.schema.getColumn with
        | none =>
          rw [hcols] at h
          obtain ⟨rfl, rfl, rfl⟩ : _ ∧ _ ∧ _ := by simpa using h
          exact .inl ⟨rfl, rfl, rfl⟩
        | some columns =>
          simp only [hcols] at h
          split at h
          · cases h
          · rename_i index s'' hfill
            obtain ⟨rfl, rfl, rfl⟩ : _ ∧ _ ∧ _ := by simpa using h
            exact .inr ⟨info, columns, index, rfl, rfl, by simpa using hnone, hcols, hfill, rfl⟩

/-- What `DropIndex` can do. -/
theorem dropIndex_cases {c c' : Catalog} {name table : String} {r : Bool}
    (h : c.dropIndex name table = (r, c')) :
    (r = false ∧ c' = c ∧ c.indexOid table name = none) ∨
      ∃ oid, r = true ∧ c.indexOid table name = some oid ∧ c'.nextTableOid = c.nextTableOid ∧
      c'.nextIndexOid = c.nextIndexOid ∧ c'.tables = c.tables ∧ c'.tableNames = c.tableNames ∧
      c'.indexes = c.indexes.erase oid ∧
      ∀ t n, c'.indexOid t n = if t = table ∧ n = name then none else c.indexOid t n := by
  rw [dropIndex] at h
  cases hnames : c.indexNames.lookup table with
  | none =>
    rw [hnames] at h
    exact .inl ⟨(Prod.mk.inj h).1.symm, (Prod.mk.inj h).2.symm, by simp [indexOid, hnames]⟩
  | some names =>
    simp only [hnames] at h
    cases hoid : names.lookup name with
    | none =>
      rw [hoid] at h
      exact .inl ⟨(Prod.mk.inj h).1.symm, (Prod.mk.inj h).2.symm, by simp [indexOid, hnames, hoid]⟩
    | some oid =>
      simp only [hoid] at h
      obtain ⟨rfl, rfl⟩ := Prod.mk.inj h
      refine .inr ⟨oid, rfl, by simp [indexOid, hnames, hoid], rfl, rfl, rfl, rfl, rfl,
        fun t n => ?_⟩
      simp only [indexOid]
      by_cases ht : t = table
      · subst ht
        by_cases hempty : (names.erase name).entries = []
        · -- the last index of the table: its names are erased with it
          have hgone : (names.erase name).lookup n = none := by
            rw [AList.lookup, hempty]
            rfl
          rw [lookup_erase_eq] at hgone
          rw [if_pos hempty, AList.lookup_erase, hnames]
          by_cases hn : n = name
          · simp [hn]
          · rw [if_neg hn] at hgone
            simp [hn, hgone]
        · rw [if_neg hempty, AList.lookup_insert, hnames, Option.bind_some, lookup_erase_eq]
          simp
      · have hother : (if (names.erase name).entries = [] then c.indexNames.erase table
            else c.indexNames.insert table (names.erase name)).lookup t =
              c.indexNames.lookup t := by
          split
          · exact AList.lookup_erase_ne ht
          · exact AList.lookup_insert_ne ht
        rw [hother]
        simp [ht]

/-- The loop over the table changes the map only. -/
theorem buildFrom_eq {schema : Schema} {attr fuel : Nat} :
    ∀ {s s' : PageStore TablePage} {it : RID} {index index' : IndexInfo},
      buildFrom schema attr fuel s it index = some (index', s') →
      ∃ map, index' = { index with intRidMap := map } := by
  induction fuel with
  | zero =>
    intro s s' it index index' h
    cases h
  | succ fuel ih =>
    intro s s' it index index' h
    rw [buildFrom] at h
    split at h
    · obtain ⟨rfl, -⟩ := Prod.mk.inj (Option.some.inj h)
      exact ⟨index.intRidMap, rfl⟩
    · dsimp only at h
      split at h
      · cases h
      · split at h
        · cases h
        · obtain ⟨map, rfl⟩ := ih h
          exact ⟨map, rfl⟩

/-- What filling an index can do to it. -/
theorem fillIndex_eq {table : TableInfo} {index index' : IndexInfo} {s s' : PageStore TablePage}
    (h : fillIndex table index s = some (index', s')) :
    (index' = index ∧ s' = s) ∨ ∃ attr map, index.keyAttrs = [attr] ∧
      (table.schema.getColumn attr).map Column.type = some .integer ∧
      index' = { index with supportsPointLookup := true, intRidMap := map } := by
  rw [fillIndex] at h
  split at h
  · rename_i attr hattrs
    split at h
    · rename_i htype
      split at h
      · cases h
      · obtain ⟨map, rfl⟩ := buildFrom_eq h
        exact .inr ⟨attr, map, hattrs, htype, rfl⟩
    · obtain ⟨rfl, rfl⟩ := Prod.mk.inj (Option.some.inj h)
      exact .inl ⟨rfl, rfl⟩
  · obtain ⟨rfl, rfl⟩ := Prod.mk.inj (Option.some.inj h)
    exact .inl ⟨rfl, rfl⟩

/-- The key attributes that were accepted are columns of the table. -/
theorem attrs_of_mapM {schema : Schema} {attrs : List Nat} {columns : List Column}
    (h : attrs.mapM schema.getColumn = some columns) :
    ∀ attr ∈ attrs, attr < schema.getColumnCount := by
  intro attr hattr
  obtain ⟨column, hcolumn⟩ := Cpp.exists_of_mem_of_mapM h hattr
  exact (List.getElem?_eq_some_iff.mp hcolumn).1

namespace CatalogOk

variable {c c' : Catalog}

/-- An index that is not found by name has no entry. -/
theorem indexOid_eq_none (hok : CatalogOk c) {name table : String}
    (h : c.getIndexByName name table = none) : c.indexOid table name = none := by
  by_contra hsome
  obtain ⟨oid, hoid⟩ := Option.ne_none_iff_exists'.mp hsome
  obtain ⟨index, hindex, -⟩ := hok.index_of_name hoid
  rw [getIndexByName, hoid, Option.bind_some, hindex] at h
  cases h

/-- **A new index** keeps the catalog consistent, if the oids have not wrapped around. -/
theorem createIndex (hok : CatalogOk c) (hroom : c.nextIndexOid ≠ 0)
    {s s' : PageStore TablePage} {name table : String} {keyAttrs : List Nat} {r : Option Nat}
    (h : c.createIndex s name table keyAttrs = some (r, c', s')) : CatalogOk c' := by
  obtain ⟨-, rfl, -⟩ | ⟨info, columns, index, -, hinfo, hnone, hcols, hfill, rfl⟩ :=
    createIndex_cases h
  · exact hok
  · obtain ⟨toid, hname, htable, -⟩ := hok.getTableByName hinfo
    have hattrs := attrs_of_mapM hcols
    have hnew := hok.indexOid_eq_none hnone
    -- whether or not it was filled, the index has the names it was created with
    obtain ⟨htn, hn, hio, hon⟩ : index.tableName = table ∧ index.name = name ∧
        index.oid = c.nextIndexOid ∧ IndexOn info index := by
      obtain ⟨rfl, -⟩ | ⟨attr, map, hkey, htype, rfl⟩ := fillIndex_eq hfill
      · exact ⟨rfl, rfl, rfl, hattrs, fun hpoint => by cases hpoint⟩
      · exact ⟨rfl, rfl, rfl, hattrs, fun _ => ⟨attr, hkey, htype⟩⟩
    have hoid : ∀ t n, indexOid { c with
        nextIndexOid := nextOid c.nextIndexOid
        indexes := c.indexes.insert c.nextIndexOid index
        indexNames := c.indexNames.insert table
          (((c.indexNames.lookup table).getD ∅).insert name c.nextIndexOid) } t n =
        if t = table ∧ n = name then some c.nextIndexOid else c.indexOid t n := by
      intro t n
      simp only [indexOid, lookup_insert_eq]
      by_cases ht : t = table
      · subst ht
        rw [if_pos rfl, Option.bind_some, lookup_insert_eq]
        cases c.indexNames.lookup t <;> simp
      · simp [ht]
    constructor
    case table_of_name => exact hok.table_of_name
    case name_of_table => exact hok.name_of_table
    case table_lt => exact hok.table_lt
    case nextTableOid_lt => exact hok.nextTableOid_lt
    case index_of_name =>
      intro t n oid h
      rw [hoid] at h
      simp only [getIndex, lookup_insert_eq]
      split at h
      · rename_i heq
        obtain rfl := Option.some.inj h
        exact ⟨index, if_pos rfl, htn.trans heq.1.symm, hn.trans heq.2.symm⟩
      · obtain ⟨i, hi, hrest⟩ := hok.index_of_name h
        exact ⟨i, by rw [if_neg (Nat.ne_of_lt (hok.index_lt hi hroom))]; exact hi, hrest⟩
    case name_of_index =>
      intro oid i hi
      simp only [getIndex, lookup_insert_eq] at hi
      rw [hoid]
      split at hi
      · rename_i heq
        obtain rfl := Option.some.inj hi
        rw [if_pos ⟨htn, hn⟩, heq]
      · have hold := hok.name_of_index hi
        rw [if_neg, hold]
        rintro ⟨rfl, rfl⟩
        rw [hnew] at hold
        cases hold
    case index_lt =>
      intro oid i hi hne
      show oid < nextOid c.nextIndexOid
      rw [nextOid_eq hok.nextIndexOid_lt hne]
      simp only [getIndex, lookup_insert_eq] at hi
      split at hi
      · rename_i heq
        exact heq ▸ Nat.lt_succ_self _
      · exact Nat.lt_succ_of_lt (hok.index_lt hi hroom)
    case nextIndexOid_lt => exact nextOid_lt _
    case index_oid =>
      intro oid i hi
      simp only [getIndex, lookup_insert_eq] at hi
      split at hi
      · rename_i heq
        obtain rfl := Option.some.inj hi
        exact hio.trans heq.symm
      · exact hok.index_oid hi
    case index_table =>
      intro oid i hi
      simp only [getIndex, lookup_insert_eq] at hi
      split at hi
      · obtain rfl := Option.some.inj hi
        exact ⟨toid, info, htn ▸ hname, htable, hon⟩
      · exact hok.index_table hi

/-- **Dropping an index** keeps the catalog consistent. -/
theorem dropIndex (hok : CatalogOk c) {name table : String} {r : Bool}
    (h : c.dropIndex name table = (r, c')) : CatalogOk c' := by
  obtain ⟨-, rfl, -⟩ | ⟨oid, -, hoid, htnext, hnext, htables, hnames, hindexes, hindexOid⟩ :=
    dropIndex_cases h
  · exact hok
  · obtain ⟨dropped, hdropped, htn, hn⟩ := hok.index_of_name hoid
    have hget : ∀ o, c'.getIndex o = if o = oid then none else c.getIndex o := by
      intro o
      rw [getIndex, hindexes, lookup_erase_eq]
      rfl
    have hold : ∀ {o i}, c'.getIndex o = some i → o ≠ oid ∧ c.getIndex o = some i := by
      intro o i hi
      rw [hget] at hi
      split at hi
      · cases hi
      · rename_i hne
        exact ⟨hne, hi⟩
    constructor
    case table_of_name =>
      rw [hnames]
      simp only [getTable, htables]
      exact hok.table_of_name
    case name_of_table =>
      rw [hnames]
      simp only [getTable, htables]
      exact hok.name_of_table
    case table_lt =>
      intro o t ht
      rw [getTable, htables] at ht
      rw [htnext]
      exact hok.table_lt ht
    case nextTableOid_lt => exact htnext ▸ hok.nextTableOid_lt
    case index_of_name =>
      intro t n o ho
      rw [hindexOid] at ho
      split at ho
      · cases ho
      · rename_i hne
        obtain ⟨i, hi, hit, hin⟩ := hok.index_of_name ho
        have hoo : o ≠ oid := by
          rintro rfl
          rw [hdropped] at hi
          obtain rfl := Option.some.inj hi
          exact hne ⟨hit.symm.trans htn, hin.symm.trans hn⟩
        exact ⟨i, by rw [hget, if_neg hoo, hi], hit, hin⟩
    case name_of_index =>
      intro o i hi
      obtain ⟨hne, hi⟩ := hold hi
      have hname := hok.name_of_index hi
      rw [hindexOid, if_neg, hname]
      rintro ⟨ht, hn'⟩
      rw [ht, hn', hoid] at hname
      exact hne (Option.some.inj hname).symm
    case index_lt =>
      intro o i hi
      rw [hnext]
      exact hok.index_lt (hold hi).2
    case nextIndexOid_lt => exact hnext ▸ hok.nextIndexOid_lt
    case index_oid => exact fun hi => hok.index_oid (hold hi).2
    case index_table =>
      intro o i hi
      rw [hnames]
      simp only [getTable, htables]
      exact hok.index_table (hold hi).2

/-- **The dropped index is gone**, and all others remain. -/
theorem getIndexByName_dropIndex (hok : CatalogOk c) {name table : String} {r : Bool}
    (h : c.dropIndex name table = (r, c')) (n t : String) :
    c'.getIndexByName n t = if n = name ∧ t = table then none else c.getIndexByName n t := by
  obtain ⟨-, rfl, hnone⟩ | ⟨oid, -, hoid, -, -, -, -, hindexes, hindexOid⟩ := dropIndex_cases h
  · split
    · rename_i heq
      rw [heq.1, heq.2, getIndexByName, hnone, Option.bind_none]
    · rfl
  · rw [getIndexByName, hindexOid, getIndexByName]
    by_cases heq : n = name ∧ t = table
    · rw [if_pos heq, if_pos heq.symm, Option.bind_none]
    · rw [if_neg heq, if_neg fun h => heq h.symm]
      refine Option.bind_congr fun o ho => ?_
      rw [getIndex, hindexes, lookup_erase_eq, if_neg]
      · rfl
      · -- an oid has one name
        rintro rfl
        obtain ⟨i, hi, htn, hn⟩ := hok.index_of_name ho
        obtain ⟨i', hi', htn', hn'⟩ := hok.index_of_name hoid
        obtain rfl := Option.some.inj (hi.symm.trans hi')
        exact heq ⟨hn.symm.trans hn', htn.symm.trans htn'⟩

end CatalogOk

/-! ## One index -/

theorem lookup_singleton {K V : Type} [DecidableEq K] {a b : K} {v w : V}
    (h : ((∅ : UnorderedMap K V).insert a v).lookup b = some w) : b = a ∧ w = v := by
  rw [lookup_insert_eq] at h
  split at h
  · exact ⟨‹_›, (Option.some.inj h).symm⟩
  · simp at h

/-- A catalog with one table and one index on it. -/
def singleCatalog (table : TableInfo) (index : IndexInfo) : Catalog where
  nextTableOid := 2
  nextIndexOid := 2
  tables := (∅ : UnorderedMap Nat TableInfo).insert 1 table
  tableNames := (∅ : UnorderedMap String Nat).insert table.name 1
  indexes := (∅ : UnorderedMap Nat IndexInfo).insert 1 index
  indexNames := (∅ : UnorderedMap String (UnorderedMap String Nat)).insert index.tableName
    ((∅ : UnorderedMap String Nat).insert index.name 1)

theorem singleCatalog_ok {table : TableInfo} {index : IndexInfo} (hoid : index.oid = 1)
    (hname : index.tableName = table.name) (hon : IndexOn table index) :
    CatalogOk (singleCatalog table index) where
  table_of_name := fun h => by
    obtain ⟨rfl, rfl⟩ := lookup_singleton h
    exact ⟨table, rfl, rfl⟩
  name_of_table := fun h => by
    obtain ⟨rfl, rfl⟩ := lookup_singleton h
    exact AList.lookup_insert _
  table_lt := fun h _ => by
    obtain ⟨rfl, rfl⟩ := lookup_singleton h
    exact Nat.one_lt_two
  nextTableOid_lt := (by decide : 2 < 2 ^ 32)
  index_of_name := fun h => by
    obtain ⟨names, hnames, hoid⟩ := Option.bind_eq_some_iff.mp h
    obtain ⟨rfl, rfl⟩ := lookup_singleton hnames
    obtain ⟨rfl, rfl⟩ := lookup_singleton hoid
    exact ⟨index, rfl, rfl, rfl⟩
  name_of_index := fun h => by
    obtain ⟨rfl, rfl⟩ := lookup_singleton h
    exact Option.bind_eq_some_iff.mpr ⟨_, AList.lookup_insert _, AList.lookup_insert _⟩
  index_lt := fun h _ => by
    obtain ⟨rfl, rfl⟩ := lookup_singleton h
    exact Nat.one_lt_two
  nextIndexOid_lt := (by decide : 2 < 2 ^ 32)
  index_oid := fun h => by
    obtain ⟨rfl, rfl⟩ := lookup_singleton h
    exact hoid
  index_table := fun h => by
    obtain ⟨rfl, rfl⟩ := lookup_singleton h
    exact ⟨1, table, hname ▸ AList.lookup_insert _, rfl, hon⟩

end OneBase
