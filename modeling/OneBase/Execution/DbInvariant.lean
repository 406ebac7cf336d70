import OneBase.Execution.Modify

/-!
# The invariant of the database

The tables have INTEGER and BOOLEAN columns, and all of them live in one page store.

- `DbInv`: every table is a heap of its own, its tuples are rows of its schema, and
  the indexes on it agree with it.
- `DbInv.replace`: changing one table keeps the others.
- `DbInv.insertRow`, `DbInv.deleteRow`: one row of an insertion or a deletion.
-/

namespace OneBase

open PageStore

/-- The key of the live tuple at a RID. -/
def keyAt (schema : Schema) (attr : Nat) (chain : HeapChain) (rid : RID) : Option Int32 :=
  (chain.tupleAt rid).bind fun bytes =>
    ((Tuple.ofBytes rid bytes).getValue schema attr).bind Value.getAsInteger

/-- The bytes are those of a row of the table. -/
def IsRow (table : TableInfo) (bytes : List UInt8) : Prop :=
  ∃ values, Row table.schema.given values ∧ Tuple.serializeAll values = some bytes

/-- What every run keeps. -/
structure DbInv (db : Database) (chains : Nat → HeapChain) : Prop where
  catalog : CatalogOk db.catalog
  store : db.pages.StoreOk
  heap : ∀ {oid table}, db.catalog.getTable oid = some table →
    HeapRep table.table db.pages (chains oid)
  disjoint : ∀ {oid₁ oid₂ table₁ table₂}, db.catalog.getTable oid₁ = some table₁ →
    db.catalog.getTable oid₂ = some table₂ → oid₁ ≠ oid₂ →
    ∀ e₁ ∈ chains oid₁, ∀ e₂ ∈ chains oid₂, e₁.1 ≠ e₂.1
  fixed : ∀ {oid table}, db.catalog.getTable oid = some table → FixedColumns table.schema.given
  rows : ∀ {oid table rid bytes}, db.catalog.getTable oid = some table →
    (chains oid).tupleAt rid = some bytes → IsRow table bytes
  agrees : ∀ {toid table ioid index attr}, db.catalog.getTable toid = some table →
    db.catalog.getIndex ioid = some index → index.tableName = table.name →
    index.supportsPointLookup = true → index.keyAttrs = [attr] →
    Agrees index (keyAt table.schema attr (chains toid))

/-- What a scan of one table and the indexes on it need: the heap is `chain`, and the indexes
agree with it. -/
structure TableOk (db : Database) (toid : Nat) (table : TableInfo) (chain : HeapChain) : Prop where
  catalog : CatalogOk db.catalog
  getTable : db.catalog.getTable toid = some table
  heap : HeapRep table.table db.pages chain
  agrees : ∀ {ioid index attr}, db.catalog.getIndex ioid = some index →
    index.tableName = table.name → index.supportsPointLookup = true → index.keyAttrs = [attr] →
    Agrees index (keyAt table.schema attr chain)

theorem DbInv.tableOk {db : Database} {chains : Nat → HeapChain} (hinv : DbInv db chains)
    {toid : Nat} {table : TableInfo} (htable : db.catalog.getTable toid = some table) :
    TableOk db toid table (chains toid) :=
  ⟨hinv.catalog, htable, hinv.heap htable, hinv.agrees htable⟩

/-! ## Keys -/

/-- An INTEGER column of a row holds an integer, which is read back from the bytes. -/
theorem IsRow.key {table : TableInfo} {attr : Nat} {values : List Value} {bytes : List UInt8}
    (hfixed : FixedColumns table.schema.given) (hrow : Row table.schema.given values)
    (hbytes : Tuple.serializeAll values = some bytes)
    (htype : (table.schema.getColumn attr).map Column.type = some .integer) (rid : RID) :
    ∃ key, values[attr]? = some (.integer key) ∧ bytes ≠ [] ∧
      (Tuple.ofBytes rid bytes).getValue table.schema attr = some (.integer key) := by
  obtain ⟨column, hcolumn, hint⟩ :=
    Option.map_eq_some_iff.mp ((table.schema.getColumn_type attr).symm.trans htype)
  obtain ⟨v, hv, hnull, hty⟩ := hrow.getElem hcolumn
  rw [hint] at hty
  obtain ⟨hlt, hget⟩ := List.getElem?_eq_some_iff.mp hv
  have hread := getValue_ofBytes hfixed hrow hbytes rid hlt
  rw [hget] at hread
  have hne : bytes ≠ [] := by
    rintro rfl
    obtain ⟨column', hcolumn', hint'⟩ := Option.map_eq_some_iff.mp htype
    simp [Tuple.getValue, Tuple.ofBytes, hcolumn', hint', Value.deserializeFrom] at hread
  cases v with
  | integer key => exact ⟨key, hv, hne, hread⟩
  | null => cases hnull
  | boolean => cases hty
  | float => cases hty
  | varchar => cases hty

namespace DbInv

variable {db : Database} {chains : Nat → HeapChain} {toid : Nat} {table : TableInfo}

/-- Every live tuple has a key in an INTEGER column. -/
theorem keyAt_of_live (hinv : DbInv db chains) (htable : db.catalog.getTable toid = some table)
    {attr : Nat} (htype : (table.schema.getColumn attr).map Column.type = some .integer)
    {rid : RID} {bytes : List UInt8} (hlive : (chains toid).tupleAt rid = some bytes) :
    ∃ key, (Tuple.ofBytes rid bytes).getValue table.schema attr = some (.integer key) ∧
      keyAt table.schema attr (chains toid) rid = some key := by
  obtain ⟨values, hrow, hbytes⟩ := hinv.rows htable hlive
  obtain ⟨key, -, -, hread⟩ := IsRow.key (hinv.fixed htable) hrow hbytes htype rid
  exact ⟨key, hread, by simp [keyAt, hlive, hread]⟩

/-- **Changing one table keeps the others.** The new pages of the table are pages it
had, or fresh ones. -/
theorem replace (hinv : DbInv db chains) (htable : db.catalog.getTable toid = some table)
    {c : Catalog} {pages : PageStore TablePage} {chain : HeapChain} (hok : CatalogOk c)
    (htables : c.tables = db.catalog.tables) (hstore : pages.StoreOk)
    (hrep : HeapRep table.table pages chain)
    (hnext : db.pages.nextPageId ≤ pages.nextPageId)
    (hothers : ∀ q, q < db.pages.nextPageId → (∀ e ∈ chains toid, e.1 ≠ q) →
      pages.pages q = db.pages.pages q)
    (hids : ∀ e ∈ chain, (∃ e' ∈ chains toid, e'.1 = e.1) ∨ db.pages.nextPageId ≤ e.1)
    (hrows : ∀ {rid bytes}, chain.tupleAt rid = some bytes → IsRow table bytes)
    (hagrees : ∀ {ioid index attr}, c.getIndex ioid = some index →
      index.tableName = table.name → index.supportsPointLookup = true →
      index.keyAttrs = [attr] → Agrees index (keyAt table.schema attr chain))
    (hsame : ∀ {ioid index}, c.getIndex ioid = some index → index.tableName ≠ table.name →
      db.catalog.getIndex ioid = some index) :
    DbInv ⟨c, pages⟩ (Function.update chains toid chain) := by
  have hget : ∀ {oid t}, c.getTable oid = some t → db.catalog.getTable oid = some t := by
    intro oid t ht
    rw [Catalog.getTable, htables] at ht
    exact ht
  have hself : ∀ {t}, db.catalog.getTable toid = some t → t = table := by
    intro t ht
    rw [htable] at ht
    exact (Option.some.inj ht).symm
  -- no page of another table is a page of the new chain
  have hapart : ∀ {oid t}, db.catalog.getTable oid = some t → oid ≠ toid →
      ∀ e ∈ chains oid, ∀ e' ∈ chain, e.1 ≠ e'.1 := by
    intro oid t ht hne e he e' he' heq
    rcases hids e' he' with ⟨e'', he'', hid⟩ | hfresh
    · exact hinv.disjoint ht htable hne e he e'' he'' (heq.trans hid.symm)
    · have hlt := ((hinv.heap ht).allocated e he).2
      rw [heq] at hlt
      exact absurd hfresh (Int.not_le.mpr hlt)
  constructor
  case catalog => exact hok
  case store => exact hstore
  case heap =>
    intro oid t ht
    by_cases heq : oid = toid
    · subst heq
      rw [Function.update_self, hself (hget ht)]
      exact hrep
    · rw [Function.update_of_ne heq]
      have hheap := hinv.heap (hget ht)
      refine hheap.congr (fun e he => hothers e.1 (hheap.allocated e he).2 fun e' he' => ?_) hnext
      exact hinv.disjoint htable (hget ht) (Ne.symm heq) e' he' e he
  case disjoint =>
    intro oid₁ oid₂ t₁ t₂ ht₁ ht₂ hne e₁ he₁ e₂ he₂
    by_cases h₁ : oid₁ = toid
    · subst h₁
      rw [Function.update_self] at he₁
      rw [Function.update_of_ne (Ne.symm hne)] at he₂
      exact Ne.symm (hapart (hget ht₂) (Ne.symm hne) e₂ he₂ e₁ he₁)
    · rw [Function.update_of_ne h₁] at he₁
      by_cases h₂ : oid₂ = toid
      · subst h₂
        rw [Function.update_self] at he₂
        exact hapart (hget ht₁) h₁ e₁ he₁ e₂ he₂
      · rw [Function.update_of_ne h₂] at he₂
        exact hinv.disjoint (hget ht₁) (hget ht₂) hne e₁ he₁ e₂ he₂
  case fixed => exact fun ht => hinv.fixed (hget ht)
  case rows =>
    intro oid t rid bytes ht hlive
    by_cases heq : oid = toid
    · subst heq
      rw [Function.update_self] at hlive
      rw [hself (hget ht)]
      exact hrows hlive
    · rw [Function.update_of_ne heq] at hlive
      exact hinv.rows (hget ht) hlive
  case agrees =>
    intro oid t ioid index attr ht hindex hname hpoint hattr
    by_cases heq : oid = toid
    · subst heq
      obtain rfl := hself (hget ht)
      rw [Function.update_self]
      exact hagrees hindex hname hpoint hattr
    · have hne : index.tableName ≠ table.name := by
        intro hcontra
        have h₁ := hinv.catalog.name_of_table (hget ht)
        have h₂ := hinv.catalog.name_of_table htable
        rw [← hname, hcontra, h₂] at h₁
        exact heq (Option.some.inj h₁).symm
      rw [Function.update_of_ne heq]
      exact hinv.agrees (hget ht) (hsame hindex hne) hname hpoint hattr

end DbInv

/-! ## One row -/

/-- The list enumerates the indexes of a table. -/
structure ListsIndexes (c : Catalog) (name : String) (oids : List Nat) : Prop where
  nodup : oids.Nodup
  mem : ∀ oid, oid ∈ oids ↔ ∃ index, c.getIndex oid = some index ∧ index.tableName = name

theorem CatalogOk.listsIndexes {c : Catalog} (hok : CatalogOk c) {name : String} {oids : List Nat}
    (hperm : oids.Perm (c.getTableIndexes name)) : ListsIndexes c name oids where
  nodup := hperm.nodup_iff.mpr (hok.nodup_getTableIndexes name)
  mem := fun _ => hperm.mem_iff.trans hok.mem_getTableIndexes

/-- What a loop over the indexes of a table leaves: `body` was done to each index of the table,
and the others are as they were. -/
structure Looped (body : IndexInfo → Option IndexInfo) (name : String) (oids : List Nat)
    (c c' : Catalog) : Prop where
  ok : CatalogOk c'
  tables : c'.tables = c.tables
  lists : ListsIndexes c' name oids
  others : ∀ {oid index}, c'.getIndex oid = some index → index.tableName ≠ name →
    c.getIndex oid = some index
  changed : ∀ {oid index'}, c'.getIndex oid = some index' → index'.tableName = name →
    ∃ index map, c.getIndex oid = some index ∧ body index = some index' ∧
      index' = { index with intRidMap := map }

theorem looped {body : IndexInfo → Option IndexInfo}
    (hbody : ∀ {index index'}, body index = some index' →
      ∃ map, index' = { index with intRidMap := map })
    {name : String} {oids : List Nat} {c c' : Catalog} (hok : CatalogOk c)
    (hlists : ListsIndexes c name oids) (h : forIndexes body oids c = some c') :
    Looped body name oids c c' := by
  obtain ⟨hok', htables, hothers, hlist⟩ := forIndexes_spec hbody hlists.nodup hok h
  -- an index of the new catalog is one of the old, apart from the map
  have hold : ∀ {oid index'}, c'.getIndex oid = some index' → ∃ index, c.getIndex oid = some index ∧
      (oid ∉ oids → index' = index) ∧ (oid ∈ oids → body index = some index') ∧
      index'.tableName = index.tableName := by
    intro oid index' hindex'
    by_cases hmem : oid ∈ oids
    · obtain ⟨index, i', hindex, hone, hi'⟩ := hlist oid hmem
      rw [hindex'] at hi'
      obtain rfl := Option.some.inj hi'
      obtain ⟨map, rfl⟩ := hbody hone
      exact ⟨index, hindex, fun hno => absurd hmem hno, fun _ => hone, rfl⟩
    · rw [hothers oid hmem] at hindex'
      exact ⟨index', hindex', fun _ => rfl, fun hyes => absurd hyes hmem, rfl⟩
  constructor
  case ok => exact hok'
  case tables => exact htables
  case lists =>
    refine ⟨hlists.nodup, fun oid => ⟨fun hmem => ?_, ?_⟩⟩
    · obtain ⟨index, index', hindex, hone, hindex'⟩ := hlist oid hmem
      obtain ⟨i, hi, hname⟩ := (hlists.mem oid).mp hmem
      rw [hindex] at hi
      obtain rfl := Option.some.inj hi
      obtain ⟨map, rfl⟩ := hbody hone
      exact ⟨_, hindex', hname⟩
    · rintro ⟨index', hindex', hname⟩
      obtain ⟨index, hindex, -, -, hname'⟩ := hold hindex'
      exact (hlists.mem oid).mpr ⟨index, hindex, hname' ▸ hname⟩
  case others =>
    intro oid index' hindex' hne
    obtain ⟨index, hindex, hsame, -, hname⟩ := hold hindex'
    have hnotin : oid ∉ oids := by
      intro hmem
      obtain ⟨i, hi, hn⟩ := (hlists.mem oid).mp hmem
      rw [hindex] at hi
      obtain rfl := Option.some.inj hi
      exact hne (hname.trans hn)
    rw [hsame hnotin]
    exact hindex
  case changed =>
    intro oid index' hindex' hname
    obtain ⟨index, hindex, -, hone, hname'⟩ := hold hindex'
    have hone' := hone ((hlists.mem oid).mpr ⟨index, hindex, hname' ▸ hname⟩)
    obtain ⟨map, hmap⟩ := hbody hone'
    exact ⟨index, map, hindex, hone', hmap⟩

/-- What `maintain` leaves: the indexes of the table were updated at the key of the tuple, the
others are as they were. -/
structure Maintained (update : IndexInfo → Int32 → RID → IndexInfo) (table : TableInfo)
    (tuple : Tuple) (rid : RID) (oids : List Nat) (c c' : Catalog) : Prop where
  ok : CatalogOk c'
  tables : c'.tables = c.tables
  lists : ListsIndexes c' table.name oids
  others : ∀ {oid index}, c'.getIndex oid = some index → index.tableName ≠ table.name →
    c.getIndex oid = some index
  updated : ∀ {oid index' attr key}, c'.getIndex oid = some index' →
    index'.tableName = table.name → index'.supportsPointLookup = true →
    index'.keyAttrs = [attr] → tuple.getValue table.schema attr = some (.integer key) →
    ∃ index, c.getIndex oid = some index ∧ index.tableName = table.name ∧
      index.supportsPointLookup = true ∧ index.keyAttrs = [attr] ∧ index' = update index key rid

theorem maintained {update : IndexInfo → Int32 → RID → IndexInfo} {table : TableInfo}
    {tuple : Tuple} {rid : RID} {oids : List Nat} {c c' : Catalog} (hupdate : MapOnly update)
    (hok : CatalogOk c) (hlists : ListsIndexes c table.name oids)
    (h : maintain update table.schema tuple rid oids c = some c') :
    Maintained update table tuple rid oids c c' := by
  rw [maintain_eq] at h
  have hloop := looped (maintainOne_eq hupdate) hok hlists h
  refine ⟨hloop.ok, hloop.tables, hloop.lists, hloop.others,
    fun {oid index' attr key} hindex' hname hpoint hattr hkey => ?_⟩
  obtain ⟨index, map, hindex, hone, rfl⟩ := hloop.changed hindex' hname
  exact ⟨index, hindex, hname, hpoint, hattr, maintainOne_point hpoint hattr hkey hone⟩

namespace DbInv

variable {db : Database} {chains : Nat → HeapChain} {toid : Nat} {table : TableInfo}
  {oids : List Nat} {tuple : Tuple} {rid : RID} {c : Catalog} {pages : PageStore TablePage}

/-- **One row of an insertion.** -/
theorem insertRow (hinv : DbInv db chains) (htable : db.catalog.getTable toid = some table)
    (hlists : ListsIndexes db.catalog table.name oids) {values : List Value}
    (hrow : Row table.schema.given values) (htuple : Tuple.ofValues values = some tuple)
    (hid : db.pages.nextPageId < 2 ^ 31)
    (hins : table.table.insertTuple db.pages tuple.data = some (some rid, pages))
    (hmaintain : maintain .insertEntry table.schema tuple rid oids db.catalog = some c) :
    (∃ chains', DbInv ⟨c, pages⟩ chains') ∧ c.getTable toid = some table ∧
      ListsIndexes c table.name oids := by
  have hrep := hinv.heap htable
  obtain ⟨rid', pages', chain, hins', hadds, hrep', hstore', hinserted⟩ :=
    hrep.insertTuple hinv.store hid (hrep.insertTuple_length_le hins)
  rw [hins] at hins'
  obtain ⟨rfl, rfl⟩ : rid = rid' ∧ pages = pages' := by simpa using hins'
  have hm := maintained mapOnly_insertEntry hinv.catalog hlists hmaintain
  have htupleAt := hadds.tupleAt hrep.nodup hrep.fresh_notin
  have hnew : (chains toid).tupleAt rid = none := by
    by_contra hsome
    obtain ⟨bytes, hbytes⟩ := Option.ne_none_iff_exists'.mp hsome
    exact (hadds.used hrep.nodup hrep.fresh_notin).1 (HeapChain.tupleAt_used hbytes)
  obtain ⟨data, hdata, rfl⟩ := Option.map_eq_some_iff.mp htuple
  refine ⟨⟨_, hinv.replace htable hm.ok hm.tables hstore' hrep' hinserted.next_le
    hinserted.others (fun e he => ?_) (fun {r bytes} hlive => ?_)
    (fun {ioid index attr} hindex hname hpoint hattr => ?_) hm.others⟩, ?_, hm.lists⟩
  · exact (hinserted.ids e he).imp_right fun h => Int.le_of_eq h.1.symm
  · rw [htupleAt] at hlive
    split at hlive
    · obtain ⟨hdata', -⟩ := Option.filter_eq_some_iff.mp hlive
      obtain rfl := Option.some.inj hdata'
      exact ⟨values, hrow, hdata⟩
    · exact hinv.rows htable hlive
  · -- the entry that was added is the key of the new tuple
    have htable' : c.getTable toid = some table := by
      rw [Catalog.getTable, hm.tables]
      exact htable
    obtain ⟨attr', hattr', htype⟩ := hm.ok.point htable' hindex hname hpoint
    rw [hattr] at hattr'
    obtain rfl : attr = attr' := by simpa using hattr'
    obtain ⟨key, hvalue, hne, hread⟩ := IsRow.key (hinv.fixed htable) hrow hdata htype rid
    have hkey : Tuple.getValue { data, values } table.schema attr = some (.integer key) := by
      simp [Tuple.getValue, hvalue]
    obtain ⟨index₀, hindex₀, hname₀, hpoint₀, hattr₀, rfl⟩ :=
      hm.updated hindex hname hpoint hattr hkey
    have hagrees := hinv.agrees htable hindex₀ hname₀ hpoint₀ hattr₀
    refine (hagrees.insertEntry (by simp [keyAt, hnew]) key).congr fun r => ?_
    have hkept : (some data).filter (· ≠ []) = some data := by simp [hne]
    by_cases hr : r = rid
    · subst hr
      rw [keyAt, htupleAt, if_pos rfl, hkept, Function.update_self, Option.bind_some, hread]
      rfl
    · simp [keyAt, htupleAt, hr]
  · rw [Catalog.getTable, hm.tables]
    exact htable

/-- **One row of a deletion.** -/
theorem deleteRow (hinv : DbInv db chains) (htable : db.catalog.getTable toid = some table)
    (hlists : ListsIndexes db.catalog table.name oids) {bytes : List UInt8}
    (hlive : (chains toid).tupleAt rid = some bytes)
    (htuple : ScanExecutor.rebuild table.schema rid bytes = some tuple)
    (hmaintain : maintain .removeEntry table.schema tuple rid oids db.catalog = some c) :
    DbInv ⟨c, TableHeap.deleteTuple db.pages rid⟩
        (Function.update chains toid ((chains toid).deleteAt rid)) ∧
      c.getTable toid = some table ∧ ListsIndexes c table.name oids := by
  have hrep := hinv.heap htable
  obtain ⟨hrep', hnext, hpins, hothers⟩ := hrep.deleteTuple hlive
  have hm := maintained mapOnly_removeEntry hinv.catalog hlists hmaintain
  have hstore : (TableHeap.deleteTuple db.pages rid).StoreOk := by
    refine ⟨hnext ▸ hinv.store.next_nonneg, fun p hp => ?_⟩
    rw [hpins]
    exact hinv.store.unpinned p (hnext ▸ hp)
  refine ⟨hinv.replace htable hm.ok hm.tables hstore hrep' (Int.le_of_eq hnext.symm)
    (fun q _ => hothers q) (fun e he => ?_) (fun {r b} hb => ?_)
    (fun {ioid index attr} hindex hname hpoint hattr => ?_) hm.others, ?_, hm.lists⟩
  · have hmem : e.1 ∈ (chains toid).map Prod.fst := by
      rw [← HeapChain.ids_deleteAt (chains toid) rid]
      exact List.mem_map.mpr ⟨e, he, rfl⟩
    obtain ⟨e', he', heq⟩ := List.mem_map.mp hmem
    exact .inl ⟨e', he', heq⟩
  · rw [HeapChain.tupleAt_deleteAt] at hb
    split at hb
    · cases hb
    · exact hinv.rows htable hb
  · -- the entry that is removed is the key of the deleted tuple
    have htable' : c.getTable toid = some table := by
      rw [Catalog.getTable, hm.tables]
      exact htable
    obtain ⟨attr', hattr', htype⟩ := hm.ok.point htable' hindex hname hpoint
    rw [hattr] at hattr'
    obtain rfl : attr = attr' := by simpa using hattr'
    obtain ⟨key, hread, hkeyAt⟩ := hinv.keyAt_of_live htable htype hlive
    have hcount := Schema.lt_getColumnCount htype
    have hkey : tuple.getValue table.schema attr = some (.integer key) := by
      rw [ScanExecutor.getValue_rebuild htuple hcount, hread]
    obtain ⟨index₀, hindex₀, hname₀, hpoint₀, hattr₀, rfl⟩ :=
      hm.updated hindex hname hpoint hattr hkey
    have hagrees := hinv.agrees htable hindex₀ hname₀ hpoint₀ hattr₀
    refine (hagrees.removeEntry hkeyAt).congr fun r => ?_
    by_cases hr : r = rid
    · simp [keyAt, HeapChain.tupleAt_deleteAt, hr]
    · simp [keyAt, HeapChain.tupleAt_deleteAt, hr]
  · rw [Catalog.getTable, hm.tables]
    exact htable

end DbInv

end OneBase
