import OneBase.Execution.UpdateScans
import OneBase.Optimizer.OptimizePlan

/-!
# Deletions over the two scans (`delete_executor.cpp`)

A deletion takes the rows from its child one by one, and removes each of them from the indexes
and from the heap before it asks for the next one. Its child is a scan of the same table, or the
index scan that the optimizer makes of it.

- `Deletion`: what holds after some RIDs were deleted.
- `exists_deleteLoop`: the loop ends, and deletes the RIDs whose rows satisfy the predicate.
- `deleteNext_rows`: a statement leaves the rows that do not satisfy the predicate, in their
  order, and counts the others, whichever child it has.
-/

namespace OneBase

open Cpp PageStore UpdateExecutor

variable {toid : Nat} {table : TableInfo} {predicate : Option Expression} {oids : List Nat}

/-! ## The loop -/

/-- What the deletion of the RIDs `done` leaves. -/
structure Deletion (toid : Nat) (done : List RID) (db : Database) (chains : Nat → HeapChain)
    (db' : Database) (chains' : Nat → HeapChain) : Prop where
  inv : DbInv db' chains'
  tables : db'.catalog.tables = db.catalog.tables
  others : ∀ oid, oid ≠ toid → chains' oid = chains oid
  liveRids : (chains' toid).liveRids = (chains toid).liveRids.filter (· ∉ done)
  tupleAt : ∀ rid, (chains' toid).tupleAt rid =
    if rid ∈ done then none else (chains toid).tupleAt rid

/-- Nothing was deleted. -/
theorem Deletion.refl {db : Database} {chains : Nat → HeapChain} (hinv : DbInv db chains) :
    Deletion toid [] db chains db chains where
  inv := hinv
  tables := rfl
  others := fun _ _ => rfl
  liveRids := by simp
  tupleAt := fun _ => by simp

/-- The first RID and then the others. -/
theorem Deletion.cons {rid : RID} {done : List RID} {db db₁ db₂ : Database}
    {chains chains₂ : Nat → HeapChain} (htables : db₁.catalog.tables = db.catalog.tables)
    (h : Deletion toid done db₁ (Function.update chains toid ((chains toid).deleteAt rid)) db₂
      chains₂) : Deletion toid (rid :: done) db chains db₂ chains₂ where
  inv := h.inv
  tables := h.tables.trans htables
  others := fun oid hne => by rw [h.others oid hne, Function.update_of_ne hne]
  liveRids := by
    rw [h.liveRids, Function.update_self, HeapChain.liveRids_deleteAt, List.filter_filter]
    refine List.filter_congr fun r _ => ?_
    by_cases hr : r = rid <;> simp [hr]
  tupleAt := fun r => by
    rw [h.tupleAt, Function.update_self, HeapChain.tupleAt_deleteAt]
    by_cases hr : r = rid <;> simp [hr]

/-- The rows of the table can be read, and the predicate does not throw on them. -/
def Reads (table : TableInfo) (predicate : Option Expression) (chain : HeapChain) : Prop :=
  ∀ {rid bytes}, chain.tupleAt rid = some bytes → ∃ row b,
    ScanExecutor.rebuild table.schema rid bytes = some row ∧
      ScanExecutor.selects predicate row table.schema = some b

/-- One call of the child does not throw. -/
theorem Reads.exists_select {chain : HeapChain} (h : Reads table predicate chain)
    {rids : List RID} (hlive : ∀ rid ∈ rids, chain.tupleAt rid ≠ none) :
    ∃ r, select table.schema predicate chain rids = some r := by
  induction rids with
  | nil => exact ⟨_, rfl⟩
  | cons rid rids ih =>
    obtain ⟨bytes, hbytes⟩ := Option.ne_none_iff_exists'.mp (hlive rid List.mem_cons_self)
    obtain ⟨row, b, hrow, hselects⟩ := h hbytes
    rw [select, hbytes, Option.getD_some, hrow]
    simp only [hselects]
    cases b with
    | true => exact ⟨_, rfl⟩
    | false => exact ih fun r hr => hlive r (List.mem_cons_of_mem _ hr)

/-- The indexes of a table are changed for each tuple that has its columns. -/
theorem maintain_some {update : IndexInfo → Int32 → RID → IndexInfo} {c : Catalog}
    (hok : CatalogOk c) (htable : c.getTable toid = some table)
    (hlists : ListsIndexes c table.name oids) {tuple : Tuple} (rid : RID)
    (hvalues : ∀ i < table.schema.getColumnCount, ∃ v, tuple.getValue table.schema i = some v) :
    ∃ c', maintain update table.schema tuple rid oids c = some c' := by
  rw [maintain_eq]
  refine forIndexes_some hlists.nodup fun oid hoid => ?_
  obtain ⟨index, hindex, hname⟩ := (hlists.mem oid).mp hoid
  refine ⟨index, ?_⟩
  by_cases hpoint : index.supportsPointLookup = true
  · obtain ⟨attr, hattr, htype⟩ := hok.point htable hindex hname hpoint
    obtain ⟨v, hv⟩ := hvalues attr (Schema.lt_getColumnCount htype)
    have hlookup : index.getLookupAttr.bind (tuple.getValue table.schema) = some v := by
      simp [IndexInfo.getLookupAttr, hattr, hv]
    simp only [maintainOne, hpoint, if_true, hlookup, hindex, true_and]
    split
    · rename_i hint
      cases v with
      | integer key => exact ⟨_, rfl⟩
      | null => cases hint.1
      | _ => cases hint.2
    · exact ⟨_, rfl⟩
  · exact ⟨index, hindex, by simp [maintainOne, hpoint]⟩

/-- What matches is the row that is stored. -/
theorem rebuild_of_matching {chain : HeapChain} {rid : RID} {bytes : List UInt8} {tuple : Tuple}
    (hbytes : chain.tupleAt rid = some bytes)
    (hmatching : matching table predicate chain rid = some tuple) :
    ScanExecutor.rebuild table.schema rid bytes = some tuple := by
  rw [matching, hbytes, Option.getD_some] at hmatching
  split at hmatching
  · cases hmatching
  · rename_i row hrow
    obtain ⟨-, hsame⟩ := Option.ite_none_right_eq_some.mp hmatching
    exact hrow.trans hsame

/-- RIDs whose tuples are the same. -/
theorem matchingRids_congr {chain chain' : HeapChain} {rids : List RID}
    (h : ∀ rid ∈ rids, chain'.tupleAt rid = chain.tupleAt rid) :
    matchingRids table predicate chain' rids = matchingRids table predicate chain rids := by
  refine List.filter_congr fun rid hrid => ?_
  rw [matching, matching, h rid hrid]

/-- **The loop of a deletion** ends, and deletes the RIDs whose rows satisfy the predicate. The
induction is on the fuel; what is still to be visited is as it was before the statement. -/
theorem exists_deleteLoop {fuel : Nat} :
    ∀ {db : Database} {chains : Nat → HeapChain} {scan : ScanExecutor} {rids : List RID}
      (deleted : Int32), DbInv db chains → db.catalog.getTable toid = some table →
      ListsIndexes db.catalog table.name oids → scan.tableInfo = table →
      scan.predicate = predicate → Pending (chains toid) scan.cursor rids →
      Reads table predicate (chains toid) → rids.length < fuel →
      ∃ db' chains', DeleteExecutor.loop table oids fuel scan db deleted =
          some (deleted + Int32.ofNat (matchingRids table predicate (chains toid) rids).length,
            db') ∧
        Deletion toid (matchingRids table predicate (chains toid) rids) db chains db' chains' := by
  induction fuel with
  | zero => exact fun _ _ _ _ _ _ _ _ hfuel => absurd hfuel (Nat.not_lt_zero _)
  | succ fuel ih =>
    rintro db chains scan rids deleted hinv htable hlists rfl rfl hpending hreads hfuel
    have hrep := hinv.heap htable
    have hlive : ∀ rid ∈ rids, (chains toid).tupleAt rid ≠ none := fun rid hrid =>
      (HeapChain.mem_liveRids hrep.nodup rid).mp (hpending.live rid hrid)
    obtain ⟨cursor, hcursor, hnext⟩ := ScanExecutor.next_eq hrep hpending
    obtain ⟨⟨r, rids'⟩, hselect⟩ := hreads.exists_select hlive
    rw [hselect, Option.map_some] at hnext
    rw [DeleteExecutor.loop, hnext]
    rcases select_matching (fun _ _ => rfl) hselect with
      ⟨rfl, hnone⟩ | ⟨tuple, rid, skipped, rfl, hsplit, hmatching, hrids⟩
    · rw [hnone, List.length_nil, count_zero]
      exact ⟨db, chains, rfl, .refl hinv⟩
    · have hmem : rid ∈ rids := by simp [hsplit]
      obtain ⟨bytes, hbytes⟩ := Option.ne_none_iff_exists'.mp (hlive rid hmem)
      have htuple := rebuild_of_matching hbytes hmatching
      obtain ⟨catalog, hmaintain⟩ := @maintain_some _ _ _ .removeEntry _ hinv.catalog htable hlists
        tuple rid fun i hi => ScanExecutor.getValue_of_rebuild htuple hi
      obtain ⟨hinv', htable', hlists'⟩ := hinv.deleteRow htable hlists hbytes htuple hmaintain
      have htables := (maintained mapOnly_removeEntry hinv.catalog hlists hmaintain).tables
      -- the RID is not among those that are still pending
      have hrest : Pending (chains toid) (cursor rids') rids' :=
        hcursor (skipped ++ [rid]) rids' (by simp [hsplit])
      have hnotin : rid ∉ rids' := by
        have hnodup := hpending.nodup hrep
        rw [hsplit] at hnodup
        exact (List.nodup_cons.mp (List.nodup_append.mp hnodup).2.1).1
      have hsame : ∀ r ∈ rids', (Function.update chains toid ((chains toid).deleteAt rid)
          toid).tupleAt r = (chains toid).tupleAt r := by
        intro r hr
        have hne : r ≠ rid := ne_of_mem_of_not_mem hr hnotin
        rw [Function.update_self, HeapChain.tupleAt_deleteAt, if_neg hne]
      have hreads' : Reads scan.tableInfo scan.predicate
          (Function.update chains toid ((chains toid).deleteAt rid) toid) := by
        intro r bytes hr
        rw [Function.update_self, HeapChain.tupleAt_deleteAt] at hr
        exact hreads (Option.ite_none_left_eq_some.mp hr).2
      have hpending' : Pending (Function.update chains toid ((chains toid).deleteAt rid) toid)
          (cursor rids') rids' := by
        rw [Function.update_self]
        exact hrest.deleteAt hnotin
      have hfuel' : rids'.length < fuel := by
        rw [hsplit, List.length_append, List.length_cons] at hfuel
        omega
      obtain ⟨db', chains', hloop, hdeletion⟩ := @ih _ _ { scan with cursor := cursor rids' } rids'
        (deleted + 1) hinv' htable' hlists' rfl rfl hpending' hreads' hfuel'
      rw [matchingRids_congr hsame] at hloop hdeletion
      rw [hrids]
      refine ⟨db', chains', ?_, hdeletion.cons htables⟩
      simp only [hmaintain, hloop, List.length_cons, count_succ]

/-! ## The rows -/

/-- Whether a row satisfies the predicate. -/
def isSelected (table : TableInfo) (predicate : Option Expression) (tuple : Tuple) : Bool :=
  decide (ScanExecutor.selects predicate tuple table.schema = some true)

/-- **The rows that are left**: those at the RIDs that do not match, in their order. The others
are counted. -/
theorem selected_of_deleted {chain chain' : HeapChain} {rids done : List RID} {rows : List Tuple}
    (hrows : selected table.schema none chain rids = some rows)
    (hdone : ∀ rid ∈ rids, rid ∈ done ↔ (matching table predicate chain rid).isSome = true)
    (hkept : ∀ rid ∈ rids, rid ∉ done → chain'.tupleAt rid = chain.tupleAt rid) :
    selected table.schema none chain' (rids.filter (· ∉ done)) =
        some (rows.filter fun tuple => !isSelected table predicate tuple) ∧
      (matchingRids table predicate chain rids).length =
        (rows.filter (isSelected table predicate)).length := by
  induction rids generalizing rows with
  | nil =>
    obtain rfl := Option.some.inj hrows
    exact ⟨rfl, rfl⟩
  | cons rid rids ih =>
    rw [selected] at hrows
    split at hrows
    · cases hrows
    · rename_i tuple hread
      obtain ⟨rest, hrest, rfl⟩ := Option.map_eq_some_iff.mp hrows
      obtain ⟨hleft, hcount⟩ := ih hrest (fun r hr => hdone r (List.mem_cons_of_mem _ hr))
        fun r hr => hkept r (List.mem_cons_of_mem _ hr)
      have hmatching : (matching table predicate chain rid).isSome = isSelected table predicate
          tuple := by
        rw [matching, hread, isSelected]
        by_cases hselects : ScanExecutor.selects predicate tuple table.schema = some true <;>
          simp [hselects]
      have hiff := hdone rid List.mem_cons_self
      rw [hmatching] at hiff
      by_cases hselects : isSelected table predicate tuple = true
      · rw [List.filter_cons_of_neg (by simpa using hiff.mpr hselects), hleft,
          List.filter_cons_of_neg (by simpa using hselects), matchingRids,
          List.filter_cons_of_pos (by rw [hmatching]; exact hselects),
          List.filter_cons_of_pos hselects, List.length_cons, List.length_cons, ← hcount]
        exact ⟨rfl, rfl⟩
      · have hnotin : rid ∉ done := fun h => hselects (hiff.mp h)
        rw [List.filter_cons_of_pos (by simpa using hnotin),
          List.filter_cons_of_pos (by simpa using hselects), matchingRids,
          List.filter_cons_of_neg (by rw [hmatching]; exact hselects),
          List.filter_cons_of_neg hselects, selected, hkept rid List.mem_cons_self hnotin, hread]
        simp only [ScanExecutor.selects, hleft, Option.map_some]
        exact ⟨trivial, hcount⟩

/-- The rows are those of the chains. -/
theorem HasRows.selected_eq {db : Database} {chains : Nat → HeapChain} {rows : Nat → List Tuple}
    (hrows : HasRows db rows) (hinv : DbInv db chains) {oid : Nat} {t : TableInfo}
    (ht : db.catalog.getTable oid = some t) :
    selected t.schema none (chains oid) (chains oid).liveRids = some (rows oid) := by
  obtain ⟨chain, hrep, hselected⟩ := hrows oid t ht
  obtain rfl := (hinv.heap ht).unique hrep
  exact hselected

/-- The rows of the tables after a deletion. -/
theorem Deletion.hasRows {db db' : Database} {chains chains' : Nat → HeapChain}
    {rows : Nat → List Tuple} (hinv : DbInv db chains) (hrows : HasRows db rows)
    (htable : db.catalog.getTable toid = some table) {done : List RID}
    (hdone : done.Perm (matchingRids table predicate (chains toid) (chains toid).liveRids))
    (h : Deletion toid done db chains db' chains') :
    HasRows db' (Function.update rows toid
        ((rows toid).filter fun tuple => !isSelected table predicate tuple)) ∧
      done.length = ((rows toid).filter (isSelected table predicate)).length := by
  have hmem : ∀ rid ∈ (chains toid).liveRids,
      rid ∈ done ↔ (matching table predicate (chains toid) rid).isSome = true := by
    intro rid hrid
    rw [hdone.mem_iff, matchingRids, List.mem_filter]
    exact ⟨fun h => h.2, fun h => ⟨hrid, h⟩⟩
  obtain ⟨hleft, hcount⟩ := selected_of_deleted (hrows.selected_eq hinv htable) hmem
      fun rid _ hnotin => by
    rw [h.tupleAt, if_neg hnotin]
  refine ⟨fun oid t ht => ?_, hdone.length_eq.trans hcount⟩
  have ht₀ : db.catalog.getTable oid = some t := by
    rw [Catalog.getTable, ← h.tables]
    exact ht
  refine ⟨chains' oid, h.inv.heap ht, ?_⟩
  by_cases heq : oid = toid
  · subst heq
    rw [htable] at ht₀
    obtain rfl := Option.some.inj ht₀
    rw [Function.update_self, h.liveRids]
    exact hleft
  · rw [Function.update_of_ne heq, h.others oid heq]
    exact hrows.selected_eq hinv ht₀

/-! ## The statement -/

/-- What the optimizer makes of the child of a deletion or an update. -/
theorem childOf_optimize {db : Database} {chain : HeapChain}
    (hstate : ScanState db toid table chain) {predicate : Option Expr}
    (hnull : NoNullKey predicate) {order : List Nat}
    (horder : order.Perm (db.catalog.getTableIndexes table.name)) :
    ChildOf db.catalog toid table (predicate.map Expr.evaluate)
      (optimizeSeqScanToIndexScan db.catalog order (.seqScan toid predicate)).plan := by
  cases predicate with
  | none => exact .seqScan none
  | some expr =>
    cases hmatch : matchEquality expr with
    | none =>
      rw [optimizeSeqScanToIndexScan, hmatch]
      exact .seqScan _
    | some found =>
      obtain ⟨col, lookupKey⟩ := found
      obtain ⟨v, tupleIdx, type, rfl, hpred⟩ := matchEquality_constant hmatch
      rcases optimizeSeqScanToIndexScan_cases hstate hmatch horder with
        hsame | ⟨oid, index, hrule, -, -, -⟩
      · rw [hsame]
        exact .seqScan _
      · exact .optimized ⟨tupleIdx, type, hpred⟩ (hnull _ rfl _ _ hmatch)
          (integer_of_indexScan hstate hmatch horder hrule) horder

/-- The two children of a deletion or an update. -/
theorem childOf_node {db : Database} {chain : HeapChain} (hstate : ScanState db toid table chain)
    {predicate : Option Expr} (hnull : NoNullKey predicate) {order : List Nat}
    (horder : order.Perm (db.catalog.getTableIndexes table.name)) {node : ScanNode}
    (hnode : node = .seqScan toid predicate ∨
      node = optimizeSeqScanToIndexScan db.catalog order (.seqScan toid predicate)) :
    ChildOf db.catalog toid table (predicate.map Expr.evaluate) node.plan := by
  rcases hnode with rfl | rfl
  · exact .seqScan _
  · exact childOf_optimize hstate hnull horder

/-- It is a scan of the table. -/
theorem onTable_optimize {db : Database} {chain : HeapChain}
    (hstate : ScanState db toid table chain) {predicate : Option Expr} {order : List Nat}
    (horder : order.Perm (db.catalog.getTableIndexes table.name)) :
    (optimizeSeqScanToIndexScan db.catalog order (.seqScan toid predicate)).plan.OnTable
      db.catalog toid table := by
  cases predicate with
  | none => exact rfl
  | some expr =>
    cases hmatch : matchEquality expr with
    | none =>
      rw [optimizeSeqScanToIndexScan, hmatch]
      exact rfl
    | some found =>
      obtain ⟨col, lookupKey⟩ := found
      cases hfind : findIndex db.catalog col order with
      | none =>
        simp only [optimizeSeqScanToIndexScan, hmatch, hstate.found, hfind]
        exact rfl
      | some index =>
        obtain ⟨oid, hmem, hindex, -, -⟩ := findIndex_spec hfind
        obtain ⟨index', hindex', hname⟩ :=
          hstate.catalog.mem_getTableIndexes.mp (horder.mem_iff.mp hmem)
        rw [hindex] at hindex'
        obtain rfl := Option.some.inj hindex'
        simp only [optimizeSeqScanToIndexScan, hmatch, hstate.found, hfind,
          hstate.catalog.index_oid hindex]
        refine ⟨rfl, fun i hi => ?_⟩
        rw [hindex] at hi
        obtain rfl := Option.some.inj hi
        exact hname

/-- The row at a RID is one of the rows. -/
theorem mem_of_selected {schema : Schema} {chain : HeapChain} {rids : List RID}
    {rows : List Tuple} (h : selected schema none chain rids = some rows) :
    ∀ rid ∈ rids, ∃ tuple ∈ rows,
      ScanExecutor.rebuild schema rid ((chain.tupleAt rid).getD []) = some tuple := by
  induction rids generalizing rows with
  | nil => exact fun _ h => absurd h List.not_mem_nil
  | cons rid rids ih =>
    rw [selected] at h
    split at h
    · cases h
    · rename_i tuple hread
      obtain ⟨rest, hrest, rfl⟩ := Option.map_eq_some_iff.mp h
      refine List.forall_mem_cons.mpr ⟨⟨tuple, List.mem_cons_self, hread⟩, fun r hr => ?_⟩
      obtain ⟨tuple', htuple', hread'⟩ := ih hrest r hr
      exact ⟨tuple', List.mem_cons_of_mem _ htuple', hread'⟩

/-- The bytes at a RID are those of one of the rows. -/
theorem HasRows.mem_of_tupleAt {db : Database} {chains : Nat → HeapChain}
    {rows : Nat → List Tuple} (hrows : HasRows db rows) (hinv : DbInv db chains)
    (htable : db.catalog.getTable toid = some table) {rid : RID} {bytes : List UInt8}
    (hlive : (chains toid).tupleAt rid = some bytes) :
    ∃ tuple ∈ rows toid, ScanExecutor.rebuild table.schema rid bytes = some tuple := by
  have hmem : rid ∈ (chains toid).liveRids := by
    rw [HeapChain.mem_liveRids (hinv.heap htable).nodup, hlive]
    exact Option.some_ne_none bytes
  obtain ⟨tuple, htuple, hread⟩ := mem_of_selected (hrows.selected_eq hinv htable) rid hmem
  rw [hlive, Option.getD_some] at hread
  exact ⟨tuple, htuple, hread⟩

/-- A predicate that has a value on each of the rows. -/
theorem HasRows.reads {db : Database} {chains : Nat → HeapChain} {rows : Nat → List Tuple}
    (hrows : HasRows db rows) (hinv : DbInv db chains)
    (htable : db.catalog.getTable toid = some table)
    (hdefined : ∀ tuple ∈ rows toid, ∃ b,
      ScanExecutor.selects predicate tuple table.schema = some b) :
    Reads table predicate (chains toid) := by
  intro rid bytes hlive
  obtain ⟨tuple, htuple, hread⟩ := hrows.mem_of_tupleAt hinv htable hlive
  obtain ⟨b, hb⟩ := hdefined tuple htuple
  exact ⟨tuple, b, hread, hb⟩

/-- The statement, in a database that keeps its invariant. -/
theorem DbInv.deleteNext {db : Database} {chains : Nat → HeapChain} (hinv : DbInv db chains)
    {rows : Nat → List Tuple} (hrows : HasRows db rows)
    (htable : db.catalog.getTable toid = some table)
    (hoids : oids.Perm (db.catalog.getTableIndexes table.name)) {plan : ScanPlan}
    (hchild : ChildOf db.catalog toid table predicate plan)
    (hdefined : ∀ tuple ∈ rows toid, ∃ b,
      ScanExecutor.selects predicate tuple table.schema = some b) {fuel : Nat}
    (hfuel : (chains toid).liveRids.length < fuel) :
    ∃ db' chains', DeleteExecutor.next fuel plan db toid oids =
        some (Int32.ofNat ((rows toid).filter (isSelected table predicate)).length, db') ∧
      DbInv db' chains' ∧ db'.catalog.tables = db.catalog.tables ∧
      HasRows db' (Function.update rows toid
        ((rows toid).filter fun tuple => !isSelected table predicate tuple)) := by
  have hreads : Reads table predicate (chains toid) := hrows.reads hinv htable hdefined
  obtain ⟨cursor, rids, hinit, hpending, hlen, hrids⟩ := hchild.start (hinv.scanState htable)
  obtain ⟨db', chains', hloop, hdeletion⟩ := @exists_deleteLoop _ _ _ oids fuel db chains
    ⟨table, predicate, cursor⟩ rids 0 hinv htable (hinv.catalog.listsIndexes hoids) rfl rfl
    hpending hreads (Nat.lt_of_le_of_lt hlen hfuel)
  obtain ⟨hleft, hcount⟩ := hdeletion.hasRows hinv hrows htable hrids
  refine ⟨db', chains', ?_, hdeletion.inv, hdeletion.tables, hleft⟩
  simp only [DeleteExecutor.next, hinit, htable]
  rw [hloop, Int32.zero_add, hcount]

/-- **A deletion is exact.** In every database that statements lead to, the statement ends,
returns the number of the rows that satisfy the predicate, and leaves the other rows of the table,
in their order, and all rows of the other tables; whether its child is the sequential scan or
what the optimizer makes of it. -/
theorem deleteNext_rows {s₀ : PageStore TablePage} (hok : s₀.StoreOk) {db : Database}
    (hrun : DbRun OidLeft s₀ db) {rows : Nat → List Tuple} (hrows : HasRows db rows)
    (htable : db.catalog.getTable toid = some table)
    (hoids : oids.Perm (db.catalog.getTableIndexes table.name)) {predicate : Option Expr}
    (hnull : NoNullKey predicate)
    (hdefined : ∀ tuple ∈ rows toid, ∃ b,
      ScanExecutor.selects (predicate.map Expr.evaluate) tuple table.schema = some b)
    {order : List Nat} (horder : order.Perm (db.catalog.getTableIndexes table.name))
    {node : ScanNode} (hnode : node = .seqScan toid predicate ∨
      node = optimizeSeqScanToIndexScan db.catalog order (.seqScan toid predicate)) :
    ∃ n, ∀ fuel ≥ n, ∃ db',
      DeleteExecutor.next fuel node.plan db toid oids =
        some (Int32.ofNat
          ((rows toid).filter (isSelected table (predicate.map Expr.evaluate))).length, db') ∧
      DbRun OidLeft s₀ db' ∧
      HasRows db' (Function.update rows toid
        ((rows toid).filter fun tuple =>
          !isSelected table (predicate.map Expr.evaluate) tuple)) := by
  obtain ⟨chains, hinv⟩ := hrun.inv hok
  have hstate := hinv.scanState htable
  have honTable : node.plan.OnTable db.catalog toid table := by
    rcases hnode with rfl | rfl
    · exact rfl
    · exact onTable_optimize hstate horder
  refine ⟨(chains toid).liveRids.length + 1, fun fuel hfuel => ?_⟩
  obtain ⟨db', chains', hnext, -, -, hleft⟩ := hinv.deleteNext hrows htable hoids
    (childOf_node hstate hnull horder hnode) hdefined hfuel
  exact ⟨db', hnext, hrun.delete htable honTable hoids hnext, hleft⟩

/-- `DELETE FROM t WHERE a = 7` on the rows `(7)`, `(9)` and `(7)`, with the index. -/
theorem deleteNext_rows_seven : ∃ (db db' : Database) (rows : Nat → List Tuple) (fuel : Nat),
    DbRun OidLeft emptyStore db ∧ HasRows db rows ∧ rows 1 = insertedRows ∧
      DeleteExecutor.next fuel (optimizeSeqScanToIndexScan db.catalog
          (db.catalog.getTableIndexes "t") (.seqScan 1 (some (aEquals (.integer 7))))).plan db 1
          (db.catalog.getTableIndexes "t") =
        some (2, db') ∧
      HasRows db' (Function.update rows 1 [nineTuple]) := by
  obtain ⟨_, db, _, -, -, -, -, hrun, hinserted⟩ := exists_rowsInserted
  have htable := hinserted.table
  obtain ⟨chains, hinv⟩ := hrun.inv emptyStore_ok
  obtain ⟨rows, hrows⟩ := hinv.exists_hasRows
  have htyped : IsPredicate (rowTypes oneColumnTable.schema) (some (aEquals (.integer 7))) := by
    intro expr hexpr
    obtain rfl := Option.some.inj hexpr
    rfl
  obtain ⟨n, hnext⟩ := deleteNext_rows emptyStore_ok hrun hrows htable (.refl _)
    (noNullKey_of_typed htyped)
    (fun tuple htuple => htyped.selects (row_of_isTable (hrows _ _ htable) tuple htuple))
    (.refl _) (.inr rfl)
  obtain ⟨db', hdelete, -, hleft⟩ := hnext n (Nat.le_refl n)
  have hthree := hinserted.rows hrows
  rw [hthree] at hdelete hleft
  exact ⟨db, db', rows, n, hrun, hrows, hthree, hdelete, hleft⟩

end OneBase
