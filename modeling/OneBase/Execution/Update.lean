import OneBase.Execution.IndexAgreement
import OneBase.Storage.HeapUpdate

/-!
# The update executor (`update_executor.cpp`)

For each row of the child the executor moves the index entries to the new key, then writes the
new tuple, and then counts the row. It does not look at what `UpdateTuple` returns.

- `UpdateExecutor.row_allOrNothing_iff`: when a row is updated all or nothing.
- `updateNext_allOrNothing_iff`: when all rows are, and that the indexes then agree with the heap.
-/

namespace OneBase

open Cpp PageStore

/-- The key of an index entry; only an INTEGER that is not NULL has one. -/
def Value.indexKey (v : Value) : Option Int32 :=
  if v.isNull = false ∧ v.getTypeId = .integer then v.getAsInteger else none

namespace UpdateExecutor

/-- The tuple that the expressions give for a row. -/
def newTuple (updateExprs : List Expression) (schema : Schema) (oldTuple : Tuple) : Option Tuple :=
  match updateExprs.mapM fun expr => expr oldTuple schema with
  | none => none
  | some newValues => Tuple.ofValues newValues

/-- The body of the loop over the indexes. -/
def updateIndex (schema : Schema) (oldTuple newTuple : Tuple) (oldRid : RID) (index : IndexInfo) :
    Option IndexInfo :=
  if index.supportsPointLookup then
    match index.getLookupAttr with
    | none => none
    | some keyAttr =>
      match oldTuple.getValue schema keyAttr, newTuple.getValue schema keyAttr with
      | some oldKey, some newKey =>
        let index :=
          match oldKey.indexKey with
          | some key => index.removeEntry key oldRid
          | none => index
        match newKey.indexKey with
        | some key => some (index.insertEntry key oldRid)
        | none => some index
      | _, _ => none
  else some index

/-- The body of the loop of `Next`: the result of `UpdateTuple`, which is not used, the database
and the count. -/
def row (table : TableInfo) (updateExprs : List Expression) (indexes : List Nat) (db : Database)
    (oldTuple : Tuple) (oldRid : RID) (updateCount : Int32) : Option (Bool × Database × Int32) :=
  match newTuple updateExprs table.schema oldTuple with
  | none => none
  | some new =>
    match forIndexes (updateIndex table.schema oldTuple new oldRid) indexes db.catalog with
    | none => none
    | some catalog =>
      let (success, pages) := TableHeap.updateTuple db.pages oldRid new.data
      some (success, { catalog, pages }, updateCount + 1)

/-- The loop of `UpdateExecutor::Next`. `update_count` is an `int32_t`. -/
def loop (table : TableInfo) (updateExprs : List Expression) (indexes : List Nat) :
    Nat → ScanExecutor → Database → Int32 → Option (Int32 × Database)
  | 0, _, _, _ => none
  | fuel + 1, scan, db, updateCount =>
    match scan.next db.pages with
    | none => none
    | some (none, _, pages) => some (updateCount, { db with pages })
    | some (some (oldTuple, oldRid), cursor, pages) =>
      match row table updateExprs indexes { db with pages } oldTuple oldRid updateCount with
      | none => none
      | some (_, db, updateCount) =>
        loop table updateExprs indexes fuel { scan with cursor } db updateCount

/-- Model of `Init` and `Next`, with the list of indexes in the order of the iteration. -/
def next (updateExprs : List Expression) (fuel : Nat) (plan : ScanPlan) (db : Database)
    (tableOid : Nat) (indexes : List Nat) : Option (Int32 × Database) :=
  match ScanExecutor.init db plan with
  | none => none
  | some (scan, pages) =>
    match db.catalog.getTable tableOid with
    | none => none
    | some table => loop table updateExprs indexes fuel scan { db with pages } 0

/-- `P` holds for each row that the loop processes: for the database before it, its RID, the new
tuple, the count before it, and what the body of the loop returns. -/
def EachRow (table : TableInfo) (updateExprs : List Expression) (indexes : List Nat)
    (P : Database → RID → Tuple → Int32 → Bool × Database × Int32 → Prop) :
    Nat → ScanExecutor → Database → Int32 → Prop
  | 0, _, _, _ => True
  | fuel + 1, scan, db, updateCount =>
    ∀ oldTuple oldRid cursor pages new result,
      scan.next db.pages = some (some (oldTuple, oldRid), cursor, pages) →
      newTuple updateExprs table.schema oldTuple = some new →
      row table updateExprs indexes { db with pages } oldTuple oldRid updateCount = some result →
      P { db with pages } oldRid new updateCount result ∧
        EachRow table updateExprs indexes P fuel { scan with cursor } result.2.1 result.2.2

/-! ## All or nothing -/

/-- The tuple of the heap and the entries of the indexes are those of the new row, the other
tuples are as before, and the indexes agree with the heap. -/
structure Replaced (toid : Nat) (table : TableInfo) (chain : HeapChain) (rid : RID) (new : Tuple)
    (db' : Database) (chain' : HeapChain) : Prop where
  ok : TableOk db' toid table chain'
  tupleAt : ∀ r, chain'.tupleAt r = if r = rid then some new.data else chain.tupleAt r
  entry : ∀ {ioid index attr}, db'.catalog.getIndex ioid = some index →
    index.tableName = table.name → index.supportsPointLookup = true → index.keyAttrs = [attr] →
    ∀ key, (index.rids key).count rid =
      if (new.getValue table.schema attr).bind Value.indexKey = some key then 1 else 0

/-- **A row is updated all or nothing.** If `UpdateTuple` succeeds the new row is everywhere;
if it fails it is as if the row had not been selected. -/
def AllOrNothing (toid : Nat) (table : TableInfo) (db : Database) (rid : RID) (new : Tuple)
    (updateCount : Int32) : Bool × Database × Int32 → Prop
  | (true, db', _) => ∀ chain, TableOk db toid table chain →
    ∃ chain', Replaced toid table chain rid new db' chain'
  | (false, db', updateCount') => db' = db ∧ updateCount' = updateCount

/-- The new tuple has bytes and fits in the free space of the page of the row, and the keys in
its bytes are those of its values. -/
structure Fits (table : TableInfo) (db : Database) (rid : RID) (new : Tuple) : Prop where
  nonempty : new.data ≠ []
  room : new.data.length ≤ (db.pages.pages rid.pageId).getFreeSpaceRemaining
  readBack : ∀ {ioid index attr}, db.catalog.getIndex ioid = some index →
    index.tableName = table.name → index.supportsPointLookup = true → index.keyAttrs = [attr] →
    ((Tuple.ofBytes rid new.data).getValue table.schema attr).bind Value.getAsInteger =
      (new.getValue table.schema attr).bind Value.indexKey

end UpdateExecutor

/-! ## Indexes -/

/-- An index agrees with one table only. -/
theorem Agrees.unique {index : IndexInfo} {keyAt keyAt' : RID → Option Int32}
    (h : Agrees index keyAt) (h' : Agrees index keyAt') : keyAt = keyAt' := by
  have hiff : ∀ k r, keyAt r = some k ↔ keyAt' r = some k := by
    intro k r
    have hcount := (h.count k r).symm.trans (h'.count k r)
    split at hcount <;> split at hcount
    · rename_i hk hk'
      exact iff_of_true hk hk'
    · cases hcount
    · cases hcount
    · rename_i hk hk'
      exact iff_of_false hk hk'
  exact funext fun r => Option.ext fun k => hiff k r

/-- What is read from bytes in an INTEGER column is an INTEGER. -/
theorem getValue_ofBytes_integer {schema : Schema} {attr : Nat}
    (htype : (schema.getColumn attr).map Column.type = some .integer) {rid : RID}
    {bytes : List UInt8} {v : Value}
    (hread : (Tuple.ofBytes rid bytes).getValue schema attr = some v) :
    ∃ key, v = .integer key := by
  obtain ⟨column, hcolumn, hint⟩ := Option.map_eq_some_iff.mp htype
  simp only [Tuple.getValue, Tuple.ofBytes, List.getElem?_nil, hcolumn, hint,
    Value.deserializeFrom] at hread
  obtain ⟨-, hkey⟩ := Option.ite_none_left_eq_some.mp hread
  exact ⟨_, (Option.some.inj hkey).symm⟩

namespace UpdateExecutor

theorem updateIndex_eq {schema : Schema} {oldTuple new : Tuple} {rid : RID}
    {index index' : IndexInfo} (h : updateIndex schema oldTuple new rid index = some index') :
    ∃ map, index' = { index with intRidMap := map } := by
  have hremove : ∀ k : Option Int32, ∃ map,
      (match k with
        | some key => index.removeEntry key rid
        | none => index) = { index with intRidMap := map } := by
    intro k
    cases k with
    | none => exact ⟨index.intRidMap, rfl⟩
    | some key => exact index.removeEntry_eq key rid
  unfold updateIndex at h
  split at h
  · split at h
    · cases h
    · split at h
      · rename_i oldKey newKey _ _
        obtain ⟨map, hmap⟩ := hremove oldKey.indexKey
        simp only [hmap] at h
        split at h
        · rename_i key _
          obtain ⟨map', hmap'⟩ := IndexInfo.insertEntry_eq { index with intRidMap := map } key rid
          exact ⟨map', by rw [← Option.some.inj h, hmap']⟩
        · exact ⟨map, (Option.some.inj h).symm⟩
      · cases h
  · exact ⟨index.intRidMap, (Option.some.inj h).symm⟩

/-- **The entry of a row moves** from the key of the old tuple to the key of the new one. -/
theorem updateIndex_agrees {schema : Schema} {oldTuple new : Tuple} {rid : RID}
    {index index' : IndexInfo} {attr : Nat} {keyAt : RID → Option Int32} {key : Int32}
    (h : updateIndex schema oldTuple new rid index = some index')
    (hpoint : index.supportsPointLookup = true) (hattr : index.keyAttrs = [attr])
    (hagrees : Agrees index keyAt) (hold : oldTuple.getValue schema attr = some (.integer key))
    (hkey : keyAt rid = some key) :
    Agrees index' (Function.update keyAt rid
      ((new.getValue schema attr).bind Value.indexKey)) := by
  have hlookup : index.getLookupAttr = some attr := by simp [IndexInfo.getLookupAttr, hattr]
  have hremoved := hagrees.removeEntry hkey
  cases hnew : new.getValue schema attr with
  | none => simp [updateIndex, hpoint, hlookup, hold, hnew] at h
  | some v =>
    have hint : (Value.integer key).indexKey = some key := rfl
    simp only [updateIndex, hpoint, if_true, hlookup, hold, hnew, hint] at h
    rw [Option.bind_some]
    cases hv : v.indexKey with
    | none =>
      simp only [hv] at h
      rw [← Option.some.inj h]
      exact hremoved
    | some newKey =>
      simp only [hv] at h
      rw [← Option.some.inj h]
      have hinserted := hremoved.insertEntry (Function.update_self ..) newKey
      rwa [Function.update_idem] at hinserted

/-! ## One row -/

variable {toid : Nat} {table : TableInfo} {updateExprs : List Expression} {oids : List Nat}
  {db : Database} {chain : HeapChain} {rid : RID} {bytes : List UInt8} {tuple new : Tuple}
  {updateCount : Int32} {result : Bool × Database × Int32}

/-- The body of the loop throws if an update expression does. -/
theorem exists_newTuple (hrow : row table updateExprs oids db tuple rid updateCount = some result) :
    ∃ new, newTuple updateExprs table.schema tuple = some new := by
  rw [row] at hrow
  split at hrow
  · cases hrow
  · exact ⟨_, ‹_›⟩

/-- What the body of the loop did. -/
theorem row_cases (hnew : newTuple updateExprs table.schema tuple = some new)
    (hrow : row table updateExprs oids db tuple rid updateCount = some result) :
    ∃ catalog success pages,
      forIndexes (updateIndex table.schema tuple new rid) oids db.catalog = some catalog ∧
      TableHeap.updateTuple db.pages rid new.data = (success, pages) ∧
      result = (success, ⟨catalog, pages⟩, updateCount + 1) := by
  simp only [row, hnew] at hrow
  split at hrow
  · cases hrow
  · rename_i catalog hcatalog
    exact ⟨catalog, _, _, hcatalog, rfl, (Option.some.inj hrow).symm⟩

/-- The old tuple has the key that the indexes hold. -/
theorem old_key (hlive : chain.tupleAt rid = some bytes)
    (htuple : ScanExecutor.rebuild table.schema rid bytes = some tuple) {attr : Nat}
    (htype : (table.schema.getColumn attr).map Column.type = some .integer) :
    ∃ key, tuple.getValue table.schema attr = some (.integer key) ∧
      keyAt table.schema attr chain rid = some key := by
  have hcount := Schema.lt_getColumnCount htype
  obtain ⟨v, hv⟩ := ScanExecutor.getValue_of_rebuild htuple hcount
  have hread := (ScanExecutor.getValue_rebuild htuple hcount).symm.trans hv
  obtain ⟨key, rfl⟩ := getValue_ofBytes_integer htype hread
  exact ⟨key, hv, by simp [keyAt, hlive, hread]⟩

/-- **The indexes after a row**: the entries of the row have moved, all others have not. Before it
the indexes agree with `keys`, and the old tuple has the key of the row. -/
theorem indexes_moved (hcatalog : CatalogOk db.catalog)
    (hfound : db.catalog.getTable toid = some table)
    (hlists : ListsIndexes db.catalog table.name oids) {keys : Nat → RID → Option Int32}
    (hagrees : ∀ {ioid index attr}, db.catalog.getIndex ioid = some index →
      index.tableName = table.name → index.supportsPointLookup = true → index.keyAttrs = [attr] →
      Agrees index (keys attr))
    (hold : ∀ {attr}, (table.schema.getColumn attr).map Column.type = some .integer →
      ∃ key, tuple.getValue table.schema attr = some (.integer key) ∧ keys attr rid = some key)
    {catalog : Catalog}
    (hloop : forIndexes (updateIndex table.schema tuple new rid) oids db.catalog = some catalog)
    {ioid attr : Nat} {index : IndexInfo} (hindex : catalog.getIndex ioid = some index)
    (hname : index.tableName = table.name) (hpoint : index.supportsPointLookup = true)
    (hattr : index.keyAttrs = [attr]) :
    Agrees index (Function.update (keys attr) rid
      ((new.getValue table.schema attr).bind Value.indexKey)) := by
  have hlooped := looped updateIndex_eq hcatalog hlists hloop
  obtain ⟨index₀, map, hindex₀, hone, rfl⟩ := hlooped.changed hindex hname
  obtain ⟨attr', hattr', htype⟩ := hcatalog.point hfound hindex₀ hname hpoint
  obtain rfl : attr = attr' := by
    have hattrs : [attr] = [attr'] := hattr.symm.trans hattr'
    simpa using hattrs
  obtain ⟨key, hvalue, hkey⟩ := hold htype
  exact updateIndex_agrees hone hpoint hattr (hagrees hindex₀ hname hpoint hattr) hvalue hkey

/-- The first row of a statement: before it the indexes agree with the heap. -/
theorem indexes_after (hok : TableOk db toid table chain)
    (hlists : ListsIndexes db.catalog table.name oids) (hlive : chain.tupleAt rid = some bytes)
    (htuple : ScanExecutor.rebuild table.schema rid bytes = some tuple) {catalog : Catalog}
    (hloop : forIndexes (updateIndex table.schema tuple new rid) oids db.catalog = some catalog)
    {ioid attr : Nat} {index : IndexInfo} (hindex : catalog.getIndex ioid = some index)
    (hname : index.tableName = table.name) (hpoint : index.supportsPointLookup = true)
    (hattr : index.keyAttrs = [attr]) :
    Agrees index (Function.update (keyAt table.schema attr chain) rid
      ((new.getValue table.schema attr).bind Value.indexKey)) := by
  have hmoved := @indexes_moved toid table oids db rid tuple new hok.catalog hok.getTable hlists
    (fun attr => keyAt table.schema attr chain) hok.agrees (old_key hlive htuple)
  exact hmoved hloop hindex hname hpoint hattr

/-- The keys after the bytes of a tuple were replaced. -/
theorem keyAt_replaced {chain' : HeapChain}
    (htupleAt : ∀ r, chain'.tupleAt r = if r = rid then some new.data else chain.tupleAt r)
    (schema : Schema) (attr : Nat) :
    keyAt schema attr chain' = Function.update (keyAt schema attr chain) rid
      (((Tuple.ofBytes rid new.data).getValue schema attr).bind Value.getAsInteger) := by
  funext r
  by_cases hr : r = rid
  · subst hr
    rw [keyAt, htupleAt, if_pos rfl, Function.update_self, Option.bind_some]
  · rw [keyAt, htupleAt, if_neg hr, Function.update_of_ne hr, keyAt]

/-- **A row that fits** is replaced everywhere. -/
theorem row_replaced (hok : TableOk db toid table chain)
    (hlists : ListsIndexes db.catalog table.name oids) (hlive : chain.tupleAt rid = some bytes)
    (htuple : ScanExecutor.rebuild table.schema rid bytes = some tuple)
    (hnew : newTuple updateExprs table.schema tuple = some new)
    (hrow : row table updateExprs oids db tuple rid updateCount = some result)
    (hfits : Fits table db rid new) :
    ∃ db', result = (true, db', updateCount + 1) ∧
      Replaced toid table chain rid new db' (chain.setAt rid new.data) ∧
      ListsIndexes db'.catalog table.name oids := by
  obtain ⟨catalog, success, pages, hloop, hupdate, rfl⟩ := row_cases hnew hrow
  obtain ⟨page, hupdate', hrep⟩ := hok.heap.updateTuple hlive hfits.room
  rw [hupdate] at hupdate'
  obtain ⟨rfl, rfl⟩ := Prod.mk.inj hupdate'
  have hlooped := looped updateIndex_eq hok.catalog hlists hloop
  have hindexes := @indexes_after _ _ _ _ _ _ _ _ new hok hlists hlive htuple _ hloop
  have htupleAt : ∀ r, (chain.setAt rid new.data).tupleAt r =
      if r = rid then some new.data else chain.tupleAt r := by
    intro r
    split
    · rename_i hr
      rw [hr, HeapChain.tupleAt_setAt_self hlive]
      simp [hfits.nonempty]
    · rename_i hr
      exact chain.tupleAt_setAt_ne new.data hr
  refine ⟨_, rfl, ⟨⟨hlooped.ok, ?_, hrep, fun {ioid index attr} hindex hname hpoint hattr => ?_⟩,
    htupleAt, fun {ioid index attr} hindex hname hpoint hattr key => ?_⟩, hlooped.lists⟩
  · rw [Catalog.getTable, hlooped.tables]
    exact hok.getTable
  · -- the index is one of the catalog before the row, so the key is read back
    obtain ⟨index₀, map, hindex₀, -, rfl⟩ := hlooped.changed hindex hname
    rw [keyAt_replaced htupleAt, hfits.readBack hindex₀ hname hpoint hattr]
    exact hindexes hindex hname hpoint hattr
  · rw [(hindexes hindex hname hpoint hattr).count, Function.update_self]

/-- The free space of the pages after a row. -/
theorem row_free (hrep : HeapRep table.table db.pages chain)
    (hlive : chain.tupleAt rid = some bytes)
    (hnew : newTuple updateExprs table.schema tuple = some new)
    (hrow : row table updateExprs oids db tuple rid updateCount = some result)
    (hroom : new.data.length ≤ (db.pages.pages rid.pageId).getFreeSpaceRemaining)
    (pageId : PageId) :
    (result.2.1.pages.pages pageId).getFreeSpaceRemaining +
        (if rid.pageId = pageId then new.data.length else 0) =
      (db.pages.pages pageId).getFreeSpaceRemaining := by
  obtain ⟨catalog, success, pages, -, hupdate, rfl⟩ := row_cases hnew hrow
  have hfree := hrep.free_updateTuple hlive hroom pageId
  rwa [hupdate] at hfree

/-- **When a row is updated all or nothing.** -/
theorem row_allOrNothing_iff (hok : TableOk db toid table chain)
    (hlists : ListsIndexes db.catalog table.name oids) (hlive : chain.tupleAt rid = some bytes)
    (htuple : ScanExecutor.rebuild table.schema rid bytes = some tuple)
    (hnew : newTuple updateExprs table.schema tuple = some new)
    (hrow : row table updateExprs oids db tuple rid updateCount = some result) :
    AllOrNothing toid table db rid new updateCount result ↔ Fits table db rid new := by
  constructor
  · intro hall
    obtain ⟨catalog, success, pages, hloop, hupdate, rfl⟩ := row_cases hnew hrow
    cases success with
    | false =>
      -- the row is counted
      have hne : updateCount + 1 ≠ updateCount := fun heq => by simp at heq
      exact absurd hall.2 hne
    | true =>
      obtain ⟨chain', hreplaced⟩ := hall chain hok
      have htupleAt : chain'.tupleAt rid = some new.data := by
        rw [hreplaced.tupleAt, if_pos rfl]
      obtain ⟨-, -, -, hne⟩ := HeapChain.tupleAt_eq_some htupleAt
      refine ⟨hne, Nat.not_lt.mp fun hlong => ?_,
        fun {ioid index attr} hindex hname hpoint hattr => ?_⟩
      · exact hok.heap.updateTuple_long hlive hlong hupdate hreplaced.ok.heap htupleAt
      · -- after the row the same index agrees with the heap and has moved the entry
        obtain ⟨index', hindex', map, rfl⟩ : ∃ index', catalog.getIndex ioid = some index' ∧
            ∃ map, index' = { index with intRidMap := map } := by
          obtain ⟨i, i', hi, hone, hi'⟩ := (forIndexes_spec updateIndex_eq hlists.nodup hok.catalog
            hloop).2.2.2 ioid ((hlists.mem ioid).mpr ⟨index, hindex, hname⟩)
          obtain rfl := Option.some.inj (hi.symm.trans hindex)
          exact ⟨i', hi', updateIndex_eq hone⟩
        have hmoved := indexes_after hok hlists hlive htuple hloop hindex' hname hpoint hattr
        have hagrees := hreplaced.ok.agrees hindex' hname hpoint hattr
        rw [keyAt_replaced hreplaced.tupleAt] at hagrees
        simpa using congrFun (hagrees.unique hmoved) rid
  · intro hfits
    obtain ⟨db', rfl, hreplaced, -⟩ := row_replaced hok hlists hlive htuple hnew hrow hfits
    intro chain₀ hok₀
    obtain rfl := hok.heap.unique hok₀.heap
    exact ⟨_, hreplaced⟩

/-! ## The whole statement -/

/-- An update does not change what a scan has still to visit. -/
theorem Pending.setAt {cursor : Cursor} {rids : List RID} (h : Pending chain cursor rids)
    (hnodup : (chain.map Prod.fst).Nodup) {old : List UInt8} (hlive : chain.tupleAt rid = some old)
    (hne : bytes ≠ []) : Pending (chain.setAt rid bytes) cursor rids := by
  have hsame := HeapChain.liveRids_setAt hnodup hlive hne
  cases h with
  | seqScan hsplit => exact .seqScan (hsame.trans hsplit)
  | indexScan hnodup' hmem => exact .indexScan hnodup' fun r hr => hsame ▸ hmem r hr

/-- What the loop needs: the table is in order, and the scan is over it. -/
structure LoopOk (toid : Nat) (table : TableInfo) (oids : List Nat) (scan : ScanExecutor)
    (db : Database) (chain : HeapChain) : Prop where
  ok : TableOk db toid table chain
  lists : ListsIndexes db.catalog table.name oids
  tableInfo : scan.tableInfo = table
  pending : ∃ rids, Pending chain scan.cursor rids

theorem LoopOk.next_pages {scan : ScanExecutor} (h : LoopOk toid table oids scan db chain)
    {r : Option (Tuple × RID)} {cursor : Cursor} {pages : PageStore TablePage}
    (hnext : scan.next db.pages = some (r, cursor, pages)) : pages = db.pages := by
  obtain ⟨hok, -, rfl, rids, hpending⟩ := h
  exact (ScanExecutor.next_spec hok.heap hpending hnext).1

/-- **One turn of the loop**: the row is all or nothing if and only if it fits, and then the loop
goes on in order. -/
theorem LoopOk.turn {scan : ScanExecutor} (h : LoopOk toid table oids scan db chain)
    {cursor : Cursor} {pages : PageStore TablePage}
    (hnext : scan.next db.pages = some (some (tuple, rid), cursor, pages))
    (hnew : newTuple updateExprs table.schema tuple = some new)
    (hrow : row table updateExprs oids { db with pages } tuple rid updateCount = some result) :
    (AllOrNothing toid table { db with pages } rid new updateCount result ↔
        Fits table { db with pages } rid new) ∧
      (Fits table { db with pages } rid new →
        ∃ chain', LoopOk toid table oids { scan with cursor } result.2.1 chain') := by
  obtain ⟨hok, hlists, rfl, rids, hpending⟩ := h
  obtain ⟨rfl, hyields⟩ := ScanExecutor.next_spec hok.heap hpending hnext
  obtain ⟨rids', bytes, hpending', -, -, hlive, htuple⟩ := hyields tuple rid rfl
  refine ⟨row_allOrNothing_iff hok hlists hlive htuple hnew hrow, fun hfits => ?_⟩
  obtain ⟨db', rfl, hreplaced, hlists'⟩ := row_replaced hok hlists hlive htuple hnew hrow hfits
  exact ⟨_, hreplaced.ok, hlists', rfl, rids',
    Pending.setAt hpending' hok.heap.nodup hlive hfits.nonempty⟩

/-- **All rows are updated all or nothing if and only if they fit.** -/
theorem eachRow_allOrNothing_iff {fuel : Nat} :
    ∀ {scan : ScanExecutor} {db : Database} {chain : HeapChain} {updateCount : Int32},
      LoopOk toid table oids scan db chain →
      (EachRow table updateExprs oids (AllOrNothing toid table) fuel scan db updateCount ↔
        EachRow table updateExprs oids (fun db rid new _ _ => Fits table db rid new) fuel scan db
          updateCount) := by
  induction fuel with
  | zero => exact fun _ => Iff.rfl
  | succ fuel ih =>
    intro scan db chain updateCount h
    constructor
    · intro hall oldTuple oldRid cursor pages new result hnext hnew hrow
      obtain ⟨hiff, hgo⟩ := h.turn hnext hnew hrow
      obtain ⟨hone, hrest⟩ := hall oldTuple oldRid cursor pages new result hnext hnew hrow
      have hfits := hiff.mp hone
      obtain ⟨chain', h'⟩ := hgo hfits
      exact ⟨hfits, (ih h').mp hrest⟩
    · intro hall oldTuple oldRid cursor pages new result hnext hnew hrow
      obtain ⟨hiff, hgo⟩ := h.turn hnext hnew hrow
      obtain ⟨hfits, hrest⟩ := hall oldTuple oldRid cursor pages new result hnext hnew hrow
      obtain ⟨chain', h'⟩ := hgo hfits
      exact ⟨hiff.mpr hfits, (ih h').mpr hrest⟩

/-- The table is in order after the loop if all rows fit. -/
theorem loop_ok {fuel : Nat} :
    ∀ {scan : ScanExecutor} {db db' : Database} {chain : HeapChain} {updateCount n : Int32},
      LoopOk toid table oids scan db chain →
      EachRow table updateExprs oids (fun db rid new _ _ => Fits table db rid new) fuel scan db
        updateCount →
      loop table updateExprs oids fuel scan db updateCount = some (n, db') →
      ∃ chain', TableOk db' toid table chain' := by
  induction fuel with
  | zero =>
    intro scan db db' chain updateCount n _ _ hloop
    cases hloop
  | succ fuel ih =>
    intro scan db db' chain updateCount n h hall hloop
    rw [loop] at hloop
    split at hloop
    · cases hloop
    · rename_i cursor pages hnext
      obtain rfl := h.next_pages hnext
      obtain ⟨-, rfl⟩ := Prod.mk.inj (Option.some.inj hloop)
      exact ⟨chain, h.ok⟩
    · rename_i oldTuple oldRid cursor pages hnext
      split at hloop
      · cases hloop
      · rename_i success db₁ count hrow
        obtain ⟨new, hnew⟩ := exists_newTuple hrow
        obtain ⟨-, hgo⟩ := h.turn hnext hnew hrow
        obtain ⟨hfits, hrest⟩ := hall oldTuple oldRid cursor pages new _ hnext hnew hrow
        obtain ⟨chain', h'⟩ := hgo hfits
        exact ih h' hrest hloop

/-- The new tuples have bytes, at most `size` of them, and the keys in these are those of their
values. -/
structure AtMost (table : TableInfo) (updateExprs : List Expression) (size : Nat) : Prop where
  nonempty : ∀ {old new}, newTuple updateExprs table.schema old = some new → new.data ≠ []
  length_le : ∀ {old new}, newTuple updateExprs table.schema old = some new →
    new.data.length ≤ size
  readBack : ∀ {old new}, newTuple updateExprs table.schema old = some new → ∀ rid attr,
    ((Tuple.ofBytes rid new.data).getValue table.schema attr).bind Value.getAsInteger =
      (new.getValue table.schema attr).bind Value.indexKey

/-- **All rows fit** if the page of each row has room for the new tuples of all that are still to
be visited: a row takes the bytes of one of them. -/
theorem LoopOk.eachRow_fits {size : Nat} (hsize : AtMost table updateExprs size) {fuel : Nat} :
    ∀ {scan : ScanExecutor} {db : Database} {chain : HeapChain} {updateCount : Int32}
      {rids : List RID}, LoopOk toid table oids scan db chain → Pending chain scan.cursor rids →
      (∀ rid ∈ rids, rids.length * size ≤ (db.pages.pages rid.pageId).getFreeSpaceRemaining) →
      EachRow table updateExprs oids (fun db rid new _ _ => Fits table db rid new) fuel scan db
        updateCount := by
  induction fuel with
  | zero => exact fun _ _ _ => trivial
  | succ fuel ih =>
    intro scan db chain updateCount rids h hpending hroom old rid cursor pages new result hnext hnew
      hrow
    obtain rfl := h.next_pages hnext
    obtain ⟨hok, hlists, rfl, -⟩ := h
    obtain ⟨-, hyields⟩ := ScanExecutor.next_spec hok.heap hpending hnext
    obtain ⟨rids', bytes, hpending', hsub, -, hlive, htuple⟩ := hyields old rid rfl
    have hlength : rids'.length * size + size ≤ rids.length * size := by
      rw [← Nat.succ_mul]
      exact Nat.mul_le_mul_right size hsub.length_le
    have hself := hroom rid (hsub.subset List.mem_cons_self)
    have hle := hsize.length_le hnew
    have hfits : Fits scan.tableInfo db rid new :=
      ⟨hsize.nonempty hnew, by omega, fun _ _ _ _ => hsize.readBack hnew rid _⟩
    have hfree := row_free hok.heap hlive hnew hrow hfits.room
    obtain ⟨db', rfl, hreplaced, hlists'⟩ := row_replaced hok hlists hlive htuple hnew hrow hfits
    have hrest := Pending.setAt hpending' hok.heap.nodup hlive hfits.nonempty
    refine ⟨hfits, ih ⟨hreplaced.ok, hlists', rfl, rids', hrest⟩ hrest fun rid' hrid' => ?_⟩
    have hbefore := hroom rid' (hsub.subset (List.mem_cons_of_mem _ hrid'))
    have hafter : (db'.pages.pages rid'.pageId).getFreeSpaceRemaining +
        (if rid.pageId = rid'.pageId then new.data.length else 0) =
          (db.pages.pages rid'.pageId).getFreeSpaceRemaining := hfree rid'.pageId
    show _ ≤ (db'.pages.pages rid'.pageId).getFreeSpaceRemaining
    split at hafter <;> omega

end UpdateExecutor

open UpdateExecutor

/-- **Every row is updated all or nothing, and the indexes agree with the heap afterwards**, if
and only if every new tuple has bytes, fits in the free space of its page and has the keys that
are read back from it. -/
theorem updateNext_allOrNothing_iff {db : Database} {toid : Nat} {table : TableInfo}
    {chain : HeapChain} {oids : List Nat} {plan : ScanPlan} {scan : ScanExecutor}
    {pages : PageStore TablePage} (hok : TableOk db toid table chain)
    (hperm : oids.Perm (db.catalog.getTableIndexes table.name))
    (hplan : plan.OnTable db.catalog toid table)
    (hinit : ScanExecutor.init db plan = some (scan, pages)) (updateExprs : List Expression) :
    (∀ fuel, EachRow table updateExprs oids (AllOrNothing toid table) fuel scan
          { db with pages } 0 ∧
        ∀ n db', UpdateExecutor.next updateExprs fuel plan db toid oids = some (n, db') →
          ∃ chain', TableOk db' toid table chain') ↔
      ∀ fuel, EachRow table updateExprs oids
        (fun db rid new _ _ => UpdateExecutor.Fits table db rid new) fuel scan
        { db with pages } 0 := by
  obtain ⟨rfl, hinfo, hpending⟩ := hok.init hinit hplan
  have h : LoopOk toid table oids scan db chain :=
    ⟨hok, hok.catalog.listsIndexes hperm, hinfo, hpending⟩
  constructor
  · intro hall fuel
    exact (eachRow_allOrNothing_iff h).mp (hall fuel).1
  · intro hfits fuel
    refine ⟨(eachRow_allOrNothing_iff h).mpr (hfits fuel), fun n db' hnext => ?_⟩
    simp only [UpdateExecutor.next, hinit, hok.getTable] at hnext
    exact loop_ok h (hfits fuel) hnext

/-! ### Three rows -/

/-- A table `t (a INTEGER)` on page 0. -/
def integerTable : TableInfo := ⟨⟨[⟨"a", .integer, 0, 0⟩]⟩, "t", ⟨0⟩, 1⟩

/-- The row `(0)`. -/
def zeroRow : List UInt8 := [0, 0, 0, 0]

/-- The row `(5)`. -/
def fiveBytes : List UInt8 := [5, 0, 0, 0]

theorem rebuild_zeroRow (rid : RID) : ScanExecutor.rebuild integerTable.schema rid zeroRow =
    some { data := zeroRow, values := [.integer 0] } := by
  rw [rebuild_rid _ rid {}]
  decide

theorem rebuild_fiveBytes (rid : RID) : ScanExecutor.rebuild integerTable.schema rid fiveBytes =
    some { data := fiveBytes, values := [.integer 5] } := by
  rw [rebuild_rid _ rid {}]
  decide

/-- The rows `(0)`, `(5)` and `(0)`. -/
def threeRows : HeapChain := [(0, [zeroRow, fiveBytes, zeroRow])]

/-- What is read in column `a` of the rows. -/
theorem keyAt_threeRows (rid : RID) : keyAt integerTable.schema 0 threeRows rid =
    Function.update (Function.update (Function.update (fun _ => none) ⟨0, 0⟩ (some 0)) ⟨0, 1⟩
      (some 5)) ⟨0, 2⟩ (some 0) rid := by
  have hzero : ∀ rid, (Tuple.ofBytes rid zeroRow).getValue integerTable.schema 0 =
      some (.integer 0) := fun rid => by
    rw [← ScanExecutor.getValue_rebuild (rebuild_zeroRow rid) (by decide)]
    rfl
  have hfive : ∀ rid, (Tuple.ofBytes rid fiveBytes).getValue integerTable.schema 0 =
      some (.integer 5) := fun rid => by
    rw [← ScanExecutor.getValue_rebuild (rebuild_fiveBytes rid) (by decide)]
    rfl
  have hkey : ∀ {rid bytes v}, threeRows.tupleAt rid = some bytes →
      (Tuple.ofBytes rid bytes).getValue integerTable.schema 0 = some v →
      keyAt integerTable.schema 0 threeRows rid = v.getAsInteger := fun hlive hvalue => by
    rw [keyAt, hlive, Option.bind_some, hvalue, Option.bind_some]
  obtain ⟨page, slot⟩ := rid
  by_cases hpage : page = 0
  · subst hpage
    rcases slot with _ | _ | _ | slot
    · exact (hkey rfl (hzero _)).trans rfl
    · exact (hkey rfl (hfive _)).trans rfl
    · exact (hkey rfl (hzero _)).trans rfl
    · simp [keyAt, HeapChain.tupleAt, threeRows]
  · simp [keyAt, HeapChain.tupleAt, threeRows, hpage]

/-- The index on `a`. -/
def threeIndex : IndexInfo :=
  (({ IndexInfo.create ⟨[⟨"a", .integer, 0, 0⟩]⟩ "i" "t" 1 [0] with
    supportsPointLookup := true }.insertEntry 0 ⟨0, 0⟩).insertEntry 5 ⟨0, 1⟩).insertEntry 0 ⟨0, 2⟩

/-- The three rows and the index, on a page with room for as many again. -/
theorem exists_threeRows : ∃ pages,
    TableOk ⟨singleCatalog integerTable threeIndex, pages⟩ 1 integerTable threeRows ∧
      ∀ pageId, 12 ≤ (pages.pages pageId).getFreeSpaceRemaining := by
  obtain ⟨page, hpage, hfree⟩ := exists_rowsPage
    (by decide : ([zeroRow, fiveBytes, zeroRow].map fun tuple => tuple.length + 4).sum ≤ 4080)
  have hok := @singleCatalog_ok integerTable threeIndex rfl rfl ⟨by decide, fun _ => ⟨0, rfl, rfl⟩⟩
  refine ⟨onePage page, ⟨hok, rfl, heapRep_onePage hpage,
    fun {ioid index attr} hindex _ _ hattr => ?_⟩, fun _ => ?_⟩
  · obtain ⟨rfl, rfl⟩ := lookup_singleton hindex
    obtain rfl : attr = 0 := (List.singleton_injective hattr).symm
    have hempty : Agrees { IndexInfo.create ⟨[⟨"a", .integer, 0, 0⟩]⟩ "i" "t" 1 [0] with
        supportsPointLookup := true } fun _ => none := .empty rfl
    exact (((hempty.insertEntry rfl 0).insertEntry rfl 5).insertEntry rfl 0).congr keyAt_threeRows
  · have hsum : ([zeroRow, fiveBytes, zeroRow].map fun tuple => tuple.length + 4).sum = 24 := rfl
    show 12 ≤ page.getFreeSpaceRemaining
    omega

/-- `SET a = 8`. -/
def setEight : List Expression := [fun _ _ => some (.integer 8)]

theorem atMost_setEight : AtMost integerTable setEight 4 := by
  have hnew : ∀ {old new}, newTuple setEight integerTable.schema old = some new →
      new = { data := [8, 0, 0, 0], values := [.integer 8] } :=
    fun hsome => (Option.some.inj hsome).symm
  refine ⟨fun h => ?_, fun h => ?_, fun h rid attr => ?_⟩
  · rw [hnew h]
    exact List.cons_ne_nil _ _
  · rw [hnew h]
    exact Nat.le_refl 4
  · rw [hnew h]
    cases attr <;> rfl

/-- `UPDATE t SET a = 8` on the three rows. -/
theorem updateNext_allOrNothing_iff_rows : ∃ (db : Database) (scan : ScanExecutor),
    TableOk db 1 integerTable threeRows ∧
    ScanExecutor.init db (.seqScan 1 none) = some (scan, db.pages) ∧
    ∀ fuel, EachRow integerTable setEight [1] (AllOrNothing 1 integerTable) fuel scan db 0 ∧
      ∀ n db', UpdateExecutor.next setEight fuel (.seqScan 1 none) db 1 [1] = some (n, db') →
        ∃ chain', TableOk db' 1 integerTable chain' := by
  obtain ⟨pages, hok, hfree⟩ := exists_threeRows
  have hinit : ScanExecutor.init ⟨singleCatalog integerTable threeIndex, pages⟩ (.seqScan 1 none) =
      some (⟨integerTable, none, .seqScan ⟨0, 0⟩⟩, pages) := by
    simp only [ScanExecutor.init, hok.getTable, hok.heap.begin]
    rfl
  have hpending : Pending threeRows (.seqScan ⟨0, 0⟩) [⟨0, 0⟩, ⟨0, 1⟩, ⟨0, 2⟩] :=
    @Pending.seqScan threeRows [] [⟨0, 0⟩, ⟨0, 1⟩, ⟨0, 2⟩] rfl
  have hloop : LoopOk 1 integerTable [1] ⟨integerTable, none, .seqScan ⟨0, 0⟩⟩
      ⟨singleCatalog integerTable threeIndex, pages⟩ threeRows :=
    ⟨hok, hok.catalog.listsIndexes (.refl _), rfl, _, hpending⟩
  have hplan : (ScanPlan.seqScan 1 none).OnTable (singleCatalog integerTable threeIndex) 1
      integerTable := rfl
  exact ⟨_, _, hok, hinit, (updateNext_allOrNothing_iff hok (.refl _) hplan hinit setEight).mpr
    fun fuel => hloop.eachRow_fits atMost_setEight hpending fun rid _ => hfree rid.pageId⟩

/-! ### A full page -/

/-- A table `t (a INTEGER, b VARCHAR)` on page 0. -/
def intAndString : TableInfo :=
  ⟨⟨[⟨"a", .integer, 0, 0⟩, ⟨"b", .varchar, 0, 0⟩]⟩, "t", ⟨0⟩, 1⟩

/-- The row `(7, s)`. -/
def sevenRow (s : List UInt8) : List UInt8 := bytesOf 7 4 ++ (bytesOf s.length 4 ++ s ++ [])

theorem sevenRow_ne_nil (s : List UInt8) : sevenRow s ≠ [] := by
  simp [sevenRow, bytesOf]

theorem rebuild_sevenRow {s : List UInt8} (hs : s.length < 2 ^ 32) (rid : RID) :
    ScanExecutor.rebuild intAndString.schema rid (sevenRow s) =
      some { data := sevenRow s, values := [.integer 7, .varchar s] } := by
  have hrow : Row intAndString.schema.given [.integer 7, .varchar s] :=
    .cons ⟨rfl, rfl⟩ (.cons ⟨rfl, rfl⟩ .nil)
  have hstr : ∀ t, Value.varchar t ∈ [Value.integer 7, .varchar s] → t.length < 2 ^ 32 := by
    intro t ht
    simp only [List.mem_cons, reduceCtorEq, Value.varchar.injEq, List.not_mem_nil, or_false,
      false_or] at ht
    exact ht ▸ hs
  have hdata : Tuple.serializeAll [.integer 7, .varchar s] = some (sevenRow s) := rfl
  have hfirst : (Tuple.ofBytes rid (sevenRow s)).getValue intAndString.schema 0 =
      some (.integer 7) := getValue_of_aligned hrow hstr hdata rid (by decide : 0 < 2) rfl
  have hsecond : (Tuple.ofBytes rid (sevenRow s)).getValue intAndString.schema (0 + 1) =
      some (.varchar s) := getValue_of_aligned hrow hstr hdata rid (by decide : 1 < 2) rfl
  have hvalues : (Tuple.ofBytes rid (sevenRow s)).getValues intAndString.schema =
      some [.integer 7, .varchar s] := by
    show Tuple.getValuesFrom _ _ 0 2 = _
    simp only [Tuple.getValuesFrom, hfirst, hsecond]
  rw [ScanExecutor.rebuild, hvalues]
  rfl

theorem tupleAt_sevenRow (s : List UInt8) (r : RID) :
    HeapChain.tupleAt [(0, [sevenRow s])] r = if r = ⟨0, 0⟩ then some (sevenRow s) else none := by
  obtain ⟨page, slot⟩ := r
  by_cases hpage : page = 0
  · subst hpage
    cases slot with
    | zero => simp [HeapChain.tupleAt, Option.filter, sevenRow_ne_nil]
    | succ slot => simp [HeapChain.tupleAt]
  · simp [HeapChain.tupleAt, hpage]

/-- The key of the row, read from its bytes. -/
theorem keyAt_sevenRow {s : List UInt8} (hs : s.length < 2 ^ 32) (r : RID) :
    keyAt intAndString.schema 0 [(0, [sevenRow s])] r = if r = ⟨0, 0⟩ then some 7 else none := by
  have hkey : (Tuple.ofBytes r (sevenRow s)).getValue intAndString.schema 0 =
      some (.integer 7) := by
    rw [← ScanExecutor.getValue_rebuild (rebuild_sevenRow hs r) (by decide)]
    rfl
  rw [keyAt, tupleAt_sevenRow]
  split
  · rw [Option.bind_some, hkey]
    rfl
  · rfl

/-- The index on `a` of a table with the one row. -/
def sevenIndex : IndexInfo :=
  { IndexInfo.create ⟨[⟨"a", .integer, 0, 0⟩]⟩ "i" "t" 1 [0] with
    supportsPointLookup := true }.insertEntry 7 ⟨0, 0⟩

/-- The catalog with the table and the index. -/
def sevenCatalog : Catalog where
  nextTableOid := 2
  nextIndexOid := 2
  tables := (∅ : UnorderedMap Nat TableInfo).insert 1 intAndString
  tableNames := (∅ : UnorderedMap String Nat).insert "t" 1
  indexes := (∅ : UnorderedMap Nat IndexInfo).insert 1 sevenIndex
  indexNames := (∅ : UnorderedMap String (UnorderedMap String Nat)).insert "t"
    ((∅ : UnorderedMap String Nat).insert "i" 1)

theorem sevenCatalog_ok : CatalogOk sevenCatalog :=
  @singleCatalog_ok intAndString sevenIndex rfl rfl ⟨by decide, fun _ => ⟨0, rfl, rfl⟩⟩

/-- The row `(7, s)` fills a page, and there is an index on `a`. -/
theorem exists_sevenRow {s : List UInt8} (hs : s.length = 4068) :
    ∃ pages, TableOk ⟨sevenCatalog, pages⟩ 1 intAndString [(0, [sevenRow s])] ∧
      (pages.pages 0).getFreeSpaceRemaining = 0 := by
  have hlen : (sevenRow s).length = 4076 := by simp [sevenRow, hs]
  have hsum : ([sevenRow s].map fun tuple => tuple.length + 4).sum = 4080 := by
    rw [List.map_singleton, List.sum_singleton, hlen]
  obtain ⟨page, hpage, hfree⟩ := exists_rowsPage hsum.le
  refine ⟨onePage page, ⟨sevenCatalog_ok, rfl, heapRep_onePage hpage,
    fun {ioid index attr} hindex _ _ hattr => ?_⟩, ?_⟩
  · obtain ⟨rfl, rfl⟩ := lookup_singleton hindex
    obtain rfl : attr = 0 := (List.singleton_injective hattr).symm
    have hempty : Agrees { IndexInfo.create ⟨[⟨"a", .integer, 0, 0⟩]⟩ "i" "t" 1 [0] with
        supportsPointLookup := true } fun _ => none := .empty rfl
    refine (hempty.insertEntry rfl 7).congr fun r => ?_
    rw [keyAt_sevenRow (by omega), Function.update_apply]
  · show page.getFreeSpaceRemaining = 0
    omega

/-- **A row that grows on a full page**: `UPDATE t SET a = 8, b = s'` with a string that is one
byte longer than `s`. -/
theorem updateNext_full_page :
    ¬ ∀ (db : Database) (toid : Nat) (table : TableInfo) (chain : HeapChain) (oids : List Nat)
      (plan : ScanPlan) (scan : ScanExecutor) (pages : PageStore TablePage)
      (updateExprs : List Expression), TableOk db toid table chain →
      oids.Perm (db.catalog.getTableIndexes table.name) → plan.OnTable db.catalog toid table →
      ScanExecutor.init db plan = some (scan, pages) → ∀ fuel,
      EachRow table updateExprs oids (AllOrNothing toid table) fuel scan { db with pages } 0 := by
  intro hall
  obtain ⟨s, hs⟩ : ∃ s : List UInt8, s.length = 4068 :=
    ⟨List.replicate 4068 0, List.length_replicate⟩
  obtain ⟨pages, hok, hfull⟩ := exists_sevenRow hs
  have hrids : HeapChain.liveRids [(0, [sevenRow s])] = [] ++ [⟨0, 0⟩] := by
    simp [HeapChain.liveRids, HeapChain.liveSlots, sevenRow_ne_nil]
  have hinit : ScanExecutor.init ⟨sevenCatalog, pages⟩ (.seqScan 1 none) =
      some (⟨intAndString, none, .seqScan ⟨0, 0⟩⟩, pages) := by
    simp only [ScanExecutor.init, hok.getTable, hok.heap.begin, hrids]
    rfl
  have hpending : Pending [(0, [sevenRow s])]
      (⟨intAndString, none, .seqScan ⟨0, 0⟩⟩ : ScanExecutor).cursor [⟨0, 0⟩] := .seqScan hrids
  obtain ⟨cursor, -, hnext⟩ := ScanExecutor.next_eq hok.heap hpending
  have hlive : HeapChain.tupleAt [(0, [sevenRow s])] ⟨0, 0⟩ = some (sevenRow s) :=
    (tupleAt_sevenRow s _).trans (if_pos rfl)
  have htuple := rebuild_sevenRow (s := s) (by omega) ⟨0, 0⟩
  simp only [select, hlive, Option.getD_some, htuple, ScanExecutor.selects, Option.map_some]
    at hnext
  -- the new row
  obtain ⟨new, hnew, hlong⟩ : ∃ new, newTuple [fun _ _ => some (.integer 8),
      fun _ _ => some (.varchar (0 :: s))] intAndString.schema
        { data := sevenRow s, values := [.integer 7, .varchar s] } = some new ∧
      0 < new.data.length := ⟨_, rfl, by simp [bytesOf]⟩
  obtain ⟨result, hrow⟩ : ∃ result, row intAndString [fun _ _ => some (.integer 8),
      fun _ _ => some (.varchar (0 :: s))] [1] ⟨sevenCatalog, pages⟩
        { data := sevenRow s, values := [.integer 7, .varchar s] } ⟨0, 0⟩ 0 = some result :=
    ⟨_, rfl⟩
  have hone := (hall _ 1 intAndString _ [1] (.seqScan 1 none) _ pages _ hok (.refl _) rfl hinit 1
    _ _ _ _ new result hnext hnew hrow).1
  have hfits := (row_allOrNothing_iff hok (hok.catalog.listsIndexes (.refl _)) hlive htuple hnew
    hrow).mp hone
  have hroom := hfits.room
  have hzero : (pages.pages 0).getFreeSpaceRemaining < new.data.length := hfull ▸ hlong
  exact Nat.not_lt.mpr hroom hzero

end OneBase
