import OneBase.Execution.Update
import OneBase.Lib.MapM

/-!
# Each row is updated once (`update_executor.cpp`)

The loop of `UpdateExecutor::Next` changes the table and the indexes while its child scans them.
A row that was updated stays at its RID, and the child does not come back to it: the sequential
scan has moved its iterator past it, and the index scan has its own copy of the RIDs. So what is
still to be visited is always as it was before the statement.

- `matching`, `newAt`: the rows that the statement is about, in the state before it.
- `Progress`: what holds after some of them were updated.
- `Progress.loop`: the invariant of the loop.
-/

namespace OneBase

open Cpp PageStore

namespace UpdateExecutor

/-- The calls of `UpdateTuple` that the loop makes: the RIDs and the new tuples. -/
def calls (table : TableInfo) (updateExprs : List Expression) (indexes : List Nat) :
    Nat → ScanExecutor → Database → Int32 → List (RID × Tuple)
  | 0, _, _, _ => []
  | fuel + 1, scan, db, updateCount =>
    match scan.next db.pages with
    | none => []
    | some (none, _, _) => []
    | some (some (oldTuple, oldRid), cursor, pages) =>
      match newTuple updateExprs table.schema oldTuple,
        row table updateExprs indexes { db with pages } oldTuple oldRid updateCount with
      | some new, some (_, db, updateCount) =>
        (oldRid, new) :: calls table updateExprs indexes fuel { scan with cursor } db updateCount
      | _, _ => []

/-- `UpdateTuple` succeeds, and it replaces the addressed tuple and no other. A tuple without
bytes would be a deleted one. -/
structure Replaces (table : TableInfo) (db : Database) (rid : RID) (new : Tuple) : Prop where
  success : (TableHeap.updateTuple db.pages rid new.data).1 = true
  nonempty : new.data ≠ []
  heap : ∀ chain, HeapRep table.table db.pages chain → chain.tupleAt rid ≠ none →
    HeapRep table.table (TableHeap.updateTuple db.pages rid new.data).2 (chain.setAt rid new.data)

/-- It does if there is room for the new tuple on the page. -/
theorem replaces_of_room {table : TableInfo} {db : Database} {chain : HeapChain} {rid : RID}
    {new : Tuple} {bytes : List UInt8} (hrep : HeapRep table.table db.pages chain)
    (hlive : chain.tupleAt rid = some bytes) (hne : new.data ≠ [])
    (hroom : new.data.length ≤ (db.pages.pages rid.pageId).getFreeSpaceRemaining) :
    Replaces table db rid new := by
  obtain ⟨page, hupdate, hrep'⟩ := hrep.updateTuple hlive hroom
  constructor
  · rw [hupdate]
  · exact hne
  · intro chain' hchain' _
    obtain rfl := hrep.unique hchain'
    rw [hupdate]
    exact hrep'

section Matching

variable (table : TableInfo) (predicate : Option Expression) (updateExprs : List Expression)
  (chain : HeapChain)

/-- The row at a RID, if it satisfies the predicate. -/
def matching (rid : RID) : Option Tuple :=
  match ScanExecutor.rebuild table.schema rid ((chain.tupleAt rid).getD []) with
  | none => none
  | some row =>
    if ScanExecutor.selects predicate row table.schema = some true then some row else none

/-- The RIDs of the list whose rows satisfy the predicate. -/
def matchingRids (rids : List RID) : List RID :=
  rids.filter fun rid => (matching table predicate chain rid).isSome

/-- What becomes of the row at a RID. -/
def newAt (rid : RID) : Option Tuple :=
  (matching table predicate chain rid).bind (newTuple updateExprs table.schema)

/-- The bytes at a RID after the rows at `done` were updated. -/
def bytesAfter (done : List RID) (rid : RID) : Option (List UInt8) :=
  if rid ∈ done then (newAt table predicate updateExprs chain rid).map Tuple.data
  else chain.tupleAt rid

/-- The key of a RID in an index after the rows at `done` were updated. -/
def keyAfter (attr : Nat) (done : List RID) (rid : RID) : Option Int32 :=
  if rid ∈ done then
    (newAt table predicate updateExprs chain rid).bind fun new =>
      (new.getValue table.schema attr).bind Value.indexKey
  else keyAt table.schema attr chain rid

end Matching

variable {toid : Nat} {table : TableInfo} {predicate : Option Expression}
  {updateExprs : List Expression} {oids : List Nat} {c₀ : Catalog} {chain chain₀ : HeapChain}

/-! ## One call of the child -/

/-- One call visits the RIDs up to the first whose row satisfies the predicate. The tuples that
it visits are those of `chain₀`. -/
theorem select_matching {rids : List RID}
    (hsame : ∀ rid ∈ rids, chain.tupleAt rid = chain₀.tupleAt rid)
    {r : Option (Tuple × RID)} {rids' : List RID}
    (hselect : select table.schema predicate chain rids = some (r, rids')) :
    (r = none ∧ matchingRids table predicate chain₀ rids = []) ∨
      ∃ old rid skipped, r = some (old, rid) ∧ rids = skipped ++ rid :: rids' ∧
        matching table predicate chain₀ rid = some old ∧
        matchingRids table predicate chain₀ rids =
          rid :: matchingRids table predicate chain₀ rids' := by
  induction rids with
  | nil =>
    obtain ⟨rfl, rfl⟩ := Prod.mk.inj (Option.some.inj hselect)
    exact .inl ⟨rfl, rfl⟩
  | cons rid rids ih =>
    rw [select, hsame rid List.mem_cons_self] at hselect
    cases hrow : ScanExecutor.rebuild table.schema rid ((chain₀.tupleAt rid).getD []) with
    | none =>
      rw [hrow] at hselect
      cases hselect
    | some row =>
      rw [hrow] at hselect
      cases hselects : ScanExecutor.selects predicate row table.schema with
      | none =>
        simp only [hselects] at hselect
        cases hselect
      | some b =>
        cases b with
        | true =>
          simp only [hselects] at hselect
          obtain ⟨rfl, rfl⟩ := Prod.mk.inj (Option.some.inj hselect)
          have hmatching : matching table predicate chain₀ rid = some row := by
            simp only [matching, hrow, hselects, if_true]
          refine .inr ⟨row, rid, [], rfl, rfl, hmatching, ?_⟩
          exact List.filter_cons_of_pos (by rw [hmatching]; rfl)
        | false =>
          simp only [hselects] at hselect
          have hmatching : matching table predicate chain₀ rid = none := by
            simp [matching, hrow, hselects]
          have hskip : matchingRids table predicate chain₀ (rid :: rids) =
              matchingRids table predicate chain₀ rids :=
            List.filter_cons_of_neg (by rw [hmatching]; exact Bool.false_ne_true)
          rw [hskip]
          rcases ih (fun r hr => hsame r (List.mem_cons_of_mem _ hr)) hselect with
            hend | ⟨old, rid', skipped, hr, hsplit, hold, hrest⟩
          · exact .inl hend
          · exact .inr ⟨old, rid', rid :: skipped, hr, by rw [hsplit]; rfl, hold, hrest⟩

/-! ## The invariant of the loop -/

/-- An index without its entries. -/
def withoutEntries (index : IndexInfo) : IndexInfo := { index with intRidMap := ∅ }

/-- The rows at `done` were updated, and nothing else; before the statement the heap was
`chain₀`, with the indexes of `c₀`. -/
structure Applied (toid : Nat) (table : TableInfo) (predicate : Option Expression)
    (updateExprs : List Expression) (oids : List Nat) (c₀ : Catalog) (chain₀ : HeapChain)
    (done : List RID) (db : Database) (chain : HeapChain) : Prop where
  catalog : CatalogOk db.catalog
  found : db.catalog.getTable toid = some table
  lists : ListsIndexes db.catalog table.name oids
  heap : HeapRep table.table db.pages chain
  tupleAt : ∀ rid, chain.tupleAt rid = bytesAfter table predicate updateExprs chain₀ done rid
  indexes : ∀ ioid, (db.catalog.getIndex ioid).map withoutEntries =
    (c₀.getIndex ioid).map withoutEntries
  agrees : ∀ {ioid index attr}, db.catalog.getIndex ioid = some index →
    index.tableName = table.name → index.supportsPointLookup = true → index.keyAttrs = [attr] →
    Agrees index (keyAfter table predicate updateExprs chain₀ attr done)

/-- The RIDs `todo` are still to be visited, and none of them is done. -/
structure Progress (toid : Nat) (table : TableInfo) (predicate : Option Expression)
    (updateExprs : List Expression) (oids : List Nat) (c₀ : Catalog) (chain₀ : HeapChain)
    (done todo : List RID) (scan : ScanExecutor) (db : Database) (chain : HeapChain) : Prop extends
    Applied toid table predicate updateExprs oids c₀ chain₀ done db chain where
  tableInfo : scan.tableInfo = table
  scanPredicate : scan.predicate = predicate
  pending : Pending chain scan.cursor todo
  apart : ∀ rid ∈ todo, rid ∉ done

/-- No predicate and no update expression throws, and there is one for each column. -/
structure Evaluates (table : TableInfo) (predicate : Option Expression)
    (updateExprs : List Expression) (chain : HeapChain) : Prop where
  selects : ∀ {rid bytes}, chain.tupleAt rid = some bytes → ∃ row b,
    ScanExecutor.rebuild table.schema rid bytes = some row ∧
      ScanExecutor.selects predicate row table.schema = some b
  new : ∀ {rid row}, matching table predicate chain rid = some row →
    ∃ new, newTuple updateExprs table.schema row = some new
  columns : updateExprs.length = table.schema.getColumnCount

namespace Progress

variable {done todo : List RID} {scan : ScanExecutor} {db : Database}

/-- What is still to be visited is live, and as it was. -/
theorem live (h : Progress toid table predicate updateExprs oids c₀ chain₀ done todo scan db chain)
    {rid : RID} (hrid : rid ∈ todo) :
    ∃ bytes, chain.tupleAt rid = some bytes ∧ chain₀.tupleAt rid = some bytes := by
  obtain ⟨bytes, hbytes⟩ := Option.ne_none_iff_exists'.mp
    ((HeapChain.mem_liveRids h.heap.nodup rid).mp (h.pending.live rid hrid))
  have hsame := h.tupleAt rid
  rw [bytesAfter, if_neg (h.apart rid hrid)] at hsame
  exact ⟨bytes, hbytes, hsame ▸ hbytes⟩

/-- **One call of the child** returns the first row of `todo` that satisfies the predicate. -/
theorem next (h : Progress toid table predicate updateExprs oids c₀ chain₀ done todo scan db chain)
    {r : Option (Tuple × RID)} {cursor : Cursor} {pages : PageStore TablePage}
    (hnext : scan.next db.pages = some (r, cursor, pages)) :
    pages = db.pages ∧
      ((r = none ∧ matchingRids table predicate chain₀ todo = []) ∨
        ∃ old rid skipped todo', r = some (old, rid) ∧ todo = skipped ++ rid :: todo' ∧
          Pending chain cursor todo' ∧ matching table predicate chain₀ rid = some old ∧
          matchingRids table predicate chain₀ todo =
            rid :: matchingRids table predicate chain₀ todo') := by
  obtain ⟨cursor', hcursor, heq⟩ := ScanExecutor.next_eq h.heap h.pending
  rw [hnext, h.tableInfo, h.scanPredicate] at heq
  obtain ⟨⟨r', todo'⟩, hselect, hr⟩ := Option.map_eq_some_iff.mp heq.symm
  obtain ⟨rfl, rfl, rfl⟩ : r' = r ∧ cursor' todo' = cursor ∧ db.pages = pages := by simpa using hr
  have hsame : ∀ rid ∈ todo, chain.tupleAt rid = chain₀.tupleAt rid := by
    intro rid hrid
    obtain ⟨bytes, hbytes, hbytes₀⟩ := h.live hrid
    rw [hbytes, hbytes₀]
  refine ⟨rfl, ?_⟩
  rcases select_matching hsame hselect with
    hend | ⟨old, rid, skipped, rfl, hsplit, hold, hmatching⟩
  · exact .inl hend
  · exact .inr ⟨old, rid, skipped, todo', rfl, hsplit,
      hcursor (skipped ++ [rid]) todo' (by simp [hsplit]), hold, hmatching⟩

/-- The old tuple of a row that is still to be visited. -/
theorem rebuild_of_matching
    (h : Progress toid table predicate updateExprs oids c₀ chain₀ done todo scan db chain)
    {rid : RID} (hrid : rid ∈ todo) {old : Tuple}
    (hold : matching table predicate chain₀ rid = some old) :
    ∃ bytes, chain.tupleAt rid = some bytes ∧ chain₀.tupleAt rid = some bytes ∧
      ScanExecutor.rebuild table.schema rid bytes = some old := by
  obtain ⟨bytes, hbytes, hbytes₀⟩ := h.live hrid
  refine ⟨bytes, hbytes, hbytes₀, ?_⟩
  rw [matching, hbytes₀, Option.getD_some] at hold
  split at hold
  · cases hold
  · rename_i row hrow
    split at hold
    · rw [hrow, hold]
    · cases hold

/-- **One row is updated**: it joins the rows that are done. -/
theorem row (h : Progress toid table predicate updateExprs oids c₀ chain₀ done todo scan db chain)
    {rid : RID} {skipped todo' : List RID} (hsplit : todo = skipped ++ rid :: todo')
    {old new : Tuple} (hold : matching table predicate chain₀ rid = some old)
    (hnew : newTuple updateExprs table.schema old = some new) {updateCount : Int32}
    {result : Bool × Database × Int32}
    (hrow : UpdateExecutor.row table updateExprs oids db old rid updateCount = some result)
    (hreplaces : Replaces table db rid new) {cursor : Cursor}
    (hpending : Pending chain cursor todo') :
    ∃ chain', result.2.2 = updateCount + 1 ∧
      Progress toid table predicate updateExprs oids c₀ chain₀ (done ++ [rid]) todo'
        { scan with cursor } result.2.1 chain' := by
  obtain ⟨catalog, success, pages, hloop, hupdate, rfl⟩ := row_cases hnew hrow
  have hrid : rid ∈ todo := by simp [hsplit]
  have hnodup := h.pending.nodup h.heap
  rw [hsplit] at hnodup
  have hnotin := (List.nodup_cons.mp (List.nodup_append.mp hnodup).2.1).1
  obtain ⟨bytes, hlive, hlive₀, htuple⟩ := h.rebuild_of_matching hrid hold
  have hnewAt : newAt table predicate updateExprs chain₀ rid = some new := by
    rw [newAt, hold, Option.bind_some, hnew]
  have hlooped := looped updateIndex_eq h.catalog h.lists hloop
  have hrep := hreplaces.heap chain h.heap (hlive ▸ Option.some_ne_none bytes)
  rw [hupdate] at hrep
  refine ⟨chain.setAt rid new.data, rfl, ⟨?_, h.tableInfo, h.scanPredicate, ?_, ?_⟩⟩
  rotate_left
  · exact Pending.setAt hpending h.heap.nodup hlive hreplaces.nonempty
  · -- the child has passed the row
    intro rid' hrid' hdone
    rcases List.mem_append.mp hdone with hdone | hself
    · refine h.apart rid' ?_ hdone
      rw [hsplit]
      exact List.mem_append_right _ (List.mem_cons_of_mem _ hrid')
    · exact hnotin (List.mem_singleton.mp hself ▸ hrid')
  constructor
  case catalog => exact hlooped.ok
  case found =>
    rw [Catalog.getTable, hlooped.tables]
    exact h.found
  case lists => exact hlooped.lists
  case heap => exact hrep
  case tupleAt =>
    intro rid'
    by_cases hself : rid' = rid
    · subst hself
      rw [HeapChain.tupleAt_setAt_self hlive, bytesAfter, if_pos (by simp), hnewAt]
      simp [hreplaces.nonempty]
    · rw [chain.tupleAt_setAt_ne new.data hself, h.tupleAt, bytesAfter, bytesAfter]
      simp [hself]
  case indexes =>
    intro ioid
    obtain ⟨-, -, hothers, hlist⟩ :=
      forIndexes_spec updateIndex_eq h.lists.nodup h.catalog hloop
    rw [← h.indexes ioid]
    by_cases hmem : ioid ∈ oids
    · obtain ⟨index, index', hindex, hone, hindex'⟩ := hlist ioid hmem
      obtain ⟨map, rfl⟩ := updateIndex_eq hone
      rw [hindex, hindex']
      rfl
    · rw [hothers ioid hmem]
  case agrees =>
    intro ioid index attr hindex hname hpoint hattr
    have holdKey : ∀ {attr}, (table.schema.getColumn attr).map Column.type = some .integer →
        ∃ key, old.getValue table.schema attr = some (.integer key) ∧
          keyAfter table predicate updateExprs chain₀ attr done rid = some key := by
      intro attr htype
      obtain ⟨key, hvalue, hkey⟩ := old_key hlive₀ htuple htype
      exact ⟨key, hvalue, by rw [keyAfter, if_neg (h.apart rid hrid), hkey]⟩
    refine (@indexes_moved toid table oids db rid old new h.catalog h.found h.lists
      (fun attr => keyAfter table predicate updateExprs chain₀ attr done) h.agrees holdKey _ hloop
      _ _ _ hindex hname hpoint hattr).congr fun rid' => ?_
    by_cases hself : rid' = rid
    · subst hself
      rw [Function.update_self, keyAfter, if_pos (by simp), hnewAt, Option.bind_some]
    · rw [Function.update_of_ne hself, keyAfter, keyAfter]
      simp [hself]

/-- **The loop** updates the rows of `todo` that satisfy the predicate, each with one call of
`UpdateTuple`. The induction is on the fuel, of which each row takes one unit. -/
theorem loop {fuel : Nat} : ∀ {done todo : List RID} {scan : ScanExecutor} {db db' : Database}
    {chain : HeapChain} {updateCount n : Int32},
    Progress toid table predicate updateExprs oids c₀ chain₀ done todo scan db chain →
    EachRow table updateExprs oids (fun db rid new _ _ => Replaces table db rid new) fuel scan db
      updateCount →
    UpdateExecutor.loop table updateExprs oids fuel scan db updateCount = some (n, db') →
    (calls table updateExprs oids fuel scan db updateCount).map Prod.fst =
        matchingRids table predicate chain₀ todo ∧
      (∀ c ∈ calls table updateExprs oids fuel scan db updateCount,
        newAt table predicate updateExprs chain₀ c.1 = some c.2) ∧
      n = updateCount + Int32.ofNat (matchingRids table predicate chain₀ todo).length ∧
      ∃ chain', Applied toid table predicate updateExprs oids c₀ chain₀
        (done ++ matchingRids table predicate chain₀ todo) db' chain' := by
  induction fuel with
  | zero =>
    intro done todo scan db db' chain updateCount n _ _ hloop
    cases hloop
  | succ fuel ih =>
    intro done todo scan db db' chain updateCount n h heach hloop
    rw [UpdateExecutor.loop] at hloop
    split at hloop
    · cases hloop
    · rename_i cursor pages hnext
      -- the child has ended
      obtain ⟨rfl, ⟨-, hnone⟩ | ⟨_, _, _, _, hsome, -⟩⟩ := h.next hnext
      · obtain ⟨rfl, rfl⟩ := Prod.mk.inj (Option.some.inj hloop)
        rw [hnone, List.append_nil]
        simp only [calls, hnext]
        exact ⟨rfl, fun c hc => absurd hc List.not_mem_nil, (count_zero _).symm, chain, h.toApplied⟩
      · cases hsome
    · rename_i old rid cursor pages hnext
      obtain ⟨rfl, ⟨hnone, -⟩ |
        ⟨old', rid', skipped, todo', hsome, hsplit, hpending, hold, hcons⟩⟩ := h.next hnext
      · cases hnone
      · obtain ⟨rfl, rfl⟩ := Prod.mk.inj (Option.some.inj hsome)
        cases hrow : UpdateExecutor.row table updateExprs oids db old rid updateCount with
        | none =>
          rw [hrow] at hloop
          cases hloop
        | some result =>
          obtain ⟨new, hnew⟩ := exists_newTuple hrow
          obtain ⟨hreplaces, heach'⟩ := heach old rid cursor _ new result hnext hnew hrow
          obtain ⟨chain', hcount, h'⟩ := h.row hsplit hold hnew hrow hreplaces hpending
          obtain ⟨success, db₁, count⟩ := result
          obtain rfl : count = updateCount + 1 := hcount
          rw [hrow] at hloop
          obtain ⟨hrids, hcalls, hn, hafter⟩ := ih h' heach' hloop
          simp only [calls, hnext, hnew, hrow, hcons]
          refine ⟨?_, ?_, ?_, ?_⟩
          · rw [List.map_cons, hrids]
          · intro c hc
            rcases List.mem_cons.mp hc with rfl | hc
            · rw [newAt, hold, Option.bind_some, hnew]
            · exact hcalls c hc
          · rw [hn, List.length_cons]
            exact count_succ updateCount _
          · rw [List.append_assoc] at hafter
            exact hafter

/-- **One row does not throw** if the new tuple can be made and has a value in every column. -/
theorem exists_row
    (h : Progress toid table predicate updateExprs oids c₀ chain₀ done todo scan db chain)
    {rid : RID}
    (hrid : rid ∈ todo) {old new : Tuple} (hold : matching table predicate chain₀ rid = some old)
    (hnew : newTuple updateExprs table.schema old = some new)
    (hcolumns : updateExprs.length = table.schema.getColumnCount) (updateCount : Int32) :
    ∃ result, UpdateExecutor.row table updateExprs oids db old rid updateCount = some result := by
  obtain ⟨bytes, -, hlive₀, htuple⟩ := h.rebuild_of_matching hrid hold
  obtain ⟨catalog, hloop⟩ : ∃ catalog,
      forIndexes (updateIndex table.schema old new rid) oids db.catalog = some catalog := by
    refine forIndexes_some h.lists.nodup fun oid hoid => ?_
    obtain ⟨index, hindex, hname⟩ := (h.lists.mem oid).mp hoid
    refine ⟨index, ?_⟩
    unfold updateIndex
    by_cases hpoint : index.supportsPointLookup
    · obtain ⟨attr, hattr, htype⟩ := h.catalog.point h.found hindex hname hpoint
      obtain ⟨key, hkey, -⟩ := old_key hlive₀ htuple htype
      obtain ⟨v, hv⟩ : ∃ v, new.getValue table.schema attr = some v := by
        rw [newTuple] at hnew
        split at hnew
        · cases hnew
        · rename_i values hvalues
          have hlen : values.length = updateExprs.length := length_of_mapM hvalues
          exact ⟨_, Tuple.getValue_ofValues hnew _
            (hlen.trans hcolumns ▸ Schema.lt_getColumnCount htype)⟩
      have hlookup : index.getLookupAttr = some attr := by simp [IndexInfo.getLookupAttr, hattr]
      simp only [hpoint, if_true, hlookup, hkey, hv]
      cases v.indexKey with
      | none => exact ⟨_, hindex, rfl⟩
      | some newKey => exact ⟨_, hindex, rfl⟩
    · rw [if_neg hpoint]
      exact ⟨index, hindex, rfl⟩
  exact ⟨_, by simp only [UpdateExecutor.row, hnew, hloop]; rfl⟩

/-- The child does not throw. -/
theorem exists_next
    (h : Progress toid table predicate updateExprs oids c₀ chain₀ done todo scan db chain)
    (heval : Evaluates table predicate updateExprs chain₀) :
    ∃ r cursor, scan.next db.pages = some (r, cursor, db.pages) := by
  obtain ⟨cursor, -, heq⟩ := ScanExecutor.next_eq h.heap h.pending
  have hselect : ∀ {rids : List RID}, (∀ rid ∈ rids, rid ∈ todo) →
      ∃ r, select table.schema predicate chain rids = some r := by
    intro rids
    induction rids with
    | nil => exact fun _ => ⟨_, rfl⟩
    | cons rid rids ih =>
      intro hmem
      obtain ⟨bytes, hbytes, hbytes₀⟩ := h.live (hmem rid List.mem_cons_self)
      obtain ⟨row, b, hrow, hb⟩ := heval.selects hbytes₀
      simp only [select, hbytes, Option.getD_some, hrow, hb]
      cases b with
      | true => exact ⟨_, rfl⟩
      | false => exact ih fun r hr => hmem r (List.mem_cons_of_mem _ hr)
  obtain ⟨⟨r, rids⟩, hr⟩ := hselect fun rid hrid => hrid
  rw [h.tableInfo, h.scanPredicate, hr, Option.map_some] at heq
  exact ⟨r, cursor rids, heq⟩

/-- **The loop ends** if nothing throws. -/
theorem exists_loop (heval : Evaluates table predicate updateExprs chain₀) {fuel : Nat} :
    ∀ {done todo : List RID} {scan : ScanExecutor} {db : Database} {chain : HeapChain}
      {updateCount : Int32},
      Progress toid table predicate updateExprs oids c₀ chain₀ done todo scan db chain →
      EachRow table updateExprs oids (fun db rid new _ _ => Replaces table db rid new) fuel scan db
        updateCount →
      todo.length < fuel →
      ∃ result, UpdateExecutor.loop table updateExprs oids fuel scan db updateCount =
        some result := by
  induction fuel with
  | zero => exact fun _ _ hfuel => absurd hfuel (Nat.not_lt_zero _)
  | succ fuel ih =>
    intro done todo scan db chain updateCount h heach hfuel
    obtain ⟨r, cursor, hnext⟩ := h.exists_next heval
    rw [UpdateExecutor.loop, hnext]
    obtain ⟨-, ⟨rfl, -⟩ | ⟨old, rid, skipped, todo', rfl, hsplit, hpending, hold, -⟩⟩ :=
      h.next hnext
    · exact ⟨_, rfl⟩
    · obtain ⟨new, hnew⟩ := heval.new hold
      obtain ⟨result, hrow⟩ := h.exists_row (by simp [hsplit]) hold hnew heval.columns updateCount
      obtain ⟨hreplaces, heach'⟩ := heach old rid cursor _ new result hnext hnew hrow
      obtain ⟨chain', -, h'⟩ := h.row hsplit hold hnew hrow hreplaces hpending
      have hfuel' : todo'.length < fuel := by
        rw [hsplit, List.length_append, List.length_cons] at hfuel
        omega
      simp only [hrow]
      exact ih h' heach' hfuel'

end Progress

end UpdateExecutor

end OneBase
