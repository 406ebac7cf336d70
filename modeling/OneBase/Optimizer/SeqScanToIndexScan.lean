import OneBase.Execution.Expressions
import OneBase.Execution.IndexAgreement
import OneBase.Execution.TupleLayout

/-!
# From a sequential scan to an index scan (`optimizer.cpp`)

`OptimizeSeqScanToIndexScan` replaces a scan whose predicate equates a column with a
constant by a lookup in the first matching index. The order in which the indexes of
the table are tried is that of an unordered map, so the rule takes it as a list.

- `ScanExecutor.run`: all rows of a scan, as `ExecutionEngine::Execute` collects them.
- `run_eq`: these are the pending tuples that satisfy the predicate.
- `optimizeSeqScanToIndexScan_perm`: the optimised plan yields the same rows.
-/

namespace OneBase

open PageStore

/-- The plan nodes of the two scans. -/
inductive ScanNode where
  | seqScan (tableOid : Nat) (predicate : Option Expr)
  | indexScan (tableOid indexOid : Nat) (lookupKey : Option Expr) (predicate : Option Expr)

/-- The plan as the executors use it. -/
def ScanNode.plan : ScanNode → ScanPlan
  | seqScan tableOid predicate => .seqScan tableOid (predicate.map Expr.evaluate)
  | indexScan tableOid indexOid lookupKey predicate =>
    .indexScan tableOid indexOid (lookupKey.map Expr.evaluateNull) (predicate.map Expr.evaluate)

/-- The column and the constant of a predicate that equates them
(optimizer.cpp:41–60). -/
def matchEquality : Expr → Option (Nat × Expr)
  | .comparison (.columnValue _ colIdx _) (.constant val) .equal => some (colIdx, .constant val)
  | .comparison (.constant val) (.columnValue _ colIdx _) .equal => some (colIdx, .constant val)
  | _ => none

/-- The first of the indexes that supports point lookups on the column. -/
def findIndex (c : Catalog) (indexedCol : Nat) : List Nat → Option IndexInfo
  | [] => none
  | oid :: oids =>
    match c.getIndex oid with
    | none => none
    | some index =>
      if index.supportsPointLookup ∧ index.getLookupAttr = some indexedCol then some index
      else findIndex c indexedCol oids

/-- Model of `OptimizeSeqScanToIndexScan`, with the indexes of the table in the order
of the iteration. -/
def optimizeSeqScanToIndexScan (c : Catalog) (indexes : List Nat) : ScanNode → ScanNode
  | .seqScan tableOid (some predicate) =>
    match matchEquality predicate with
    | none => .seqScan tableOid (some predicate)
    | some (indexedCol, lookupKey) =>
      match c.getTable tableOid with
      | none => .seqScan tableOid (some predicate)
      | some _ =>
        match findIndex c indexedCol indexes with
        | none => .seqScan tableOid (some predicate)
        | some index => .indexScan tableOid index.oid (some lookupKey) (some predicate)
  | node => node

/-! ## All rows of a scan -/

namespace ScanExecutor

/-- The loop `while (executor->Next(&tuple, &rid))`. -/
def runFrom : Nat → ScanExecutor → PageStore TablePage →
    Option (List (Tuple × RID) × PageStore TablePage)
  | 0, _, _ => none
  | fuel + 1, scan, s =>
    match scan.next s with
    | none => none
    | some (none, _, s) => some ([], s)
    | some (some row, cursor, s) =>
      (runFrom fuel { scan with cursor } s).map fun (rows, s) => (row :: rows, s)

/-- `Init` and the loop. -/
def run (db : Database) (plan : ScanPlan) :
    Option (List (Tuple × RID) × PageStore TablePage) :=
  match init db plan with
  | none => none
  | some (scan, s) => runFrom (TableHeap.tupleFuel s) scan s

end ScanExecutor

/-- The pending tuples that satisfy the predicate. -/
def selectAll (schema : Schema) (predicate : Option Expression) (chain : HeapChain) :
    List RID → Option (List (Tuple × RID))
  | [] => some []
  | rid :: rids =>
    match ScanExecutor.rebuild schema rid ((chain.tupleAt rid).getD []) with
    | none => none
    | some tuple =>
      match ScanExecutor.selects predicate tuple schema with
      | none => none
      | some true => (selectAll schema predicate chain rids).map ((tuple, rid) :: ·)
      | some false => selectAll schema predicate chain rids

section SelectAll

variable {schema : Schema} {predicate : Option Expression} {chain : HeapChain}

/-- One call of `Next` and the rest. -/
theorem selectAll_eq_select (rids : List RID) :
    selectAll schema predicate chain rids =
      (select schema predicate chain rids).bind fun r =>
        match r.1 with
        | none => some []
        | some row => (selectAll schema predicate chain r.2).map (row :: ·) := by
  induction rids with
  | nil => rfl
  | cons rid rids ih =>
    rw [selectAll, select]
    cases ScanExecutor.rebuild schema rid ((chain.tupleAt rid).getD []) with
    | none => rfl
    | some tuple =>
      dsimp only
      cases ScanExecutor.selects predicate tuple schema with
      | none => rfl
      | some b =>
        cases b with
        | false => exact ih
        | true => rfl

/-- **A scan yields the pending tuples that satisfy the predicate.** The induction is
on the fuel, of which each row takes one unit. -/
theorem runFrom_eq {h : TableHeap} {s : PageStore TablePage} (hrep : HeapRep h s chain) :
    ∀ {fuel : Nat} {scan : ScanExecutor} {rids : List RID}, Pending chain scan.cursor rids →
      rids.length < fuel →
      scan.runFrom fuel s =
        (selectAll scan.tableInfo.schema scan.predicate chain rids).map fun rows => (rows, s) := by
  intro fuel
  induction fuel with
  | zero => exact fun _ hfuel => absurd hfuel (Nat.not_lt_zero _)
  | succ fuel ih =>
    intro scan rids hpending hfuel
    obtain ⟨cursor, hcursor, hnext⟩ := ScanExecutor.next_eq hrep hpending
    rw [ScanExecutor.runFrom, hnext, selectAll_eq_select]
    cases hselect : select scan.tableInfo.schema scan.predicate chain rids with
    | none => rfl
    | some r =>
      obtain ⟨row, rids'⟩ := r
      cases row with
      | none => rfl
      | some row =>
        obtain ⟨hnone, -⟩ | ⟨tuple, rid, skipped, -, hsplit, -⟩ := select_split hselect
        · cases hnone
        · have hsplit' : rids = (skipped ++ [rid]) ++ rids' := by simp [hsplit]
          have hrest : Pending chain ({ scan with cursor := cursor rids' } : ScanExecutor).cursor
              rids' := hcursor _ _ hsplit'
          have hfuel' : rids'.length < fuel := by
            rw [hsplit', List.length_append, List.length_append, List.length_singleton] at hfuel
            omega
          simp only [Option.map_some, ih hrest hfuel', Option.bind_some, Option.map_map]
          rfl

end SelectAll

/-! ## The rows of the two plans -/

/-- A predicate that equates a column with an INTEGER constant, either way round. -/
def EquatesColumn (predicate : Expr) (col : Nat) (key : Int32) : Prop :=
  ∃ tupleIdx type,
    predicate = .comparison (.columnValue tupleIdx col type) (.constant (.integer key)) .equal ∨
    predicate = .comparison (.constant (.integer key)) (.columnValue tupleIdx col type) .equal

/-- What is read in an INTEGER column is an integer. -/
theorem deserializeFrom_integer {storage : List UInt8} {v : Value}
    (h : Value.deserializeFrom storage .integer = some v) : ∃ key, v = .integer key := by
  rw [Value.deserializeFrom] at h
  split at h
  · cases h
  · exact ⟨_, (Option.some.inj h).symm⟩

/-- The state that the two plans run in: the table is a heap whose tuples can be read,
and the indexes on it agree with it. -/
structure ScanState (db : Database) (toid : Nat) (table : TableInfo) (chain : HeapChain) :
    Prop where
  catalog : CatalogOk db.catalog
  found : db.catalog.getTable toid = some table
  heap : HeapRep table.table db.pages chain
  rows : ∀ {rid bytes}, chain.tupleAt rid = some bytes →
    ∃ row, ScanExecutor.rebuild table.schema rid bytes = some row
  agrees : ∀ {ioid index attr}, db.catalog.getIndex ioid = some index →
    index.tableName = table.name → index.supportsPointLookup = true → index.keyAttrs = [attr] →
    Agrees index (keyAt table.schema attr chain)

namespace ScanState

variable {db : Database} {toid : Nat} {table : TableInfo} {chain : HeapChain} {predicate : Expr}
  {col : Nat} {key : Int32}

/-- A row has an integer in the column, and satisfies the predicate if it is the key. -/
theorem selects_iff (hstate : ScanState db toid table chain)
    (hequates : EquatesColumn predicate col key)
    (htype : (table.schema.getColumn col).map Column.type = some .integer) {rid : RID}
    {bytes : List UInt8} (hlive : chain.tupleAt rid = some bytes) :
    ∃ row k, ScanExecutor.rebuild table.schema rid bytes = some row ∧
      keyAt table.schema col chain rid = some k ∧
      ScanExecutor.selects (some predicate.evaluate) row table.schema = some (k == key) := by
  obtain ⟨row, hrow⟩ := hstate.rows hlive
  obtain ⟨column, hcolumn, hint⟩ :=
    Option.map_eq_some_iff.mp ((table.schema.getColumn_type col).symm.trans htype)
  have hcount : col < table.schema.getColumnCount := by
    rw [Schema.getColumnCount_eq]
    exact (List.getElem?_eq_some_iff.mp hcolumn).1
  have hvalue := ScanExecutor.getValue_rebuild hrow hcount
  -- the column was read when the row was built
  obtain ⟨v, hv⟩ : ∃ v, (Tuple.ofBytes rid bytes).getValue table.schema col = some v := by
    rw [ScanExecutor.rebuild] at hrow
    split at hrow
    · cases hrow
    · rename_i values hvalues
      obtain ⟨hlen, hget⟩ := Tuple.getElem_getValuesFrom hvalues
      have hlt : col < values.length := hlen.symm ▸ hcount
      have hread := hget col hcount
      rw [Nat.zero_add, List.getElem?_eq_getElem hlt] at hread
      exact ⟨values[col], hread.symm⟩
  have hread := hv
  rw [getValue_ofBytes_eq hcolumn, hint] at hread
  obtain ⟨k, rfl⟩ := deserializeFrom_integer hread
  rw [hv] at hvalue
  refine ⟨row, k, hrow, by simp [keyAt, hlive, hv], ?_⟩
  obtain ⟨tupleIdx, type, rfl | rfl⟩ := hequates
  · simp [ScanExecutor.selects, Expr.evaluate, Expr.evaluateWith, hvalue, ComparisonType.perform,
      Value.compareEquals, Value.compareWith, Value.getTypeId, Value.isNull, Value.getAsBoolean]
  · have hcomm : (key == k) = (k == key) := Bool.beq_comm
    simp [ScanExecutor.selects, Expr.evaluate, Expr.evaluateWith, hvalue, ComparisonType.perform,
      Value.compareEquals, Value.compareWith, Value.getTypeId, Value.isNull, Value.getAsBoolean,
      hcomm]

/-- The rows at the RIDs, built anew from their values. -/
def rowsOf (table : TableInfo) (chain : HeapChain) (rids : List RID) : List (Tuple × RID) :=
  rids.filterMap fun rid =>
    (ScanExecutor.rebuild table.schema rid ((chain.tupleAt rid).getD [])).map
      fun row => (row, rid)

theorem rowsOf_cons {rid : RID} {rids : List RID} {bytes : List UInt8} {row : Tuple}
    (hbytes : chain.tupleAt rid = some bytes)
    (hrow : ScanExecutor.rebuild table.schema rid bytes = some row) :
    rowsOf table chain (rid :: rids) = (row, rid) :: rowsOf table chain rids := by
  rw [rowsOf, List.filterMap_cons_some, rowsOf]
  rw [hbytes, Option.getD_some, hrow]
  rfl

/-- **Of live RIDs, those with the key are selected.** -/
theorem selectAll_eq (hstate : ScanState db toid table chain)
    (hequates : EquatesColumn predicate col key)
    (htype : (table.schema.getColumn col).map Column.type = some .integer) {rids : List RID}
    (hlive : ∀ rid ∈ rids, rid ∈ chain.liveRids) :
    selectAll table.schema (some predicate.evaluate) chain rids =
      some (rowsOf table chain
        (rids.filter fun rid => keyAt table.schema col chain rid == some key)) := by
  induction rids with
  | nil => rfl
  | cons rid rids ih =>
    obtain ⟨bytes, hbytes⟩ := Option.ne_none_iff_exists'.mp
      ((HeapChain.mem_liveRids hstate.heap.nodup rid).mp (hlive rid List.mem_cons_self))
    obtain ⟨row, k, hrow, hkey, hselects⟩ := hstate.selects_iff hequates htype hbytes
    have hrest := ih fun r hr => hlive r (List.mem_cons_of_mem _ hr)
    rw [selectAll, hbytes, Option.getD_some, hrow]
    simp only [hselects, hrest]
    by_cases hk : k = key
    · subst hk
      rw [List.filter_cons_of_pos (by simp [hkey]), rowsOf_cons hbytes hrow]
      simp
    · have hkf : (k == key) = false := by simpa using hk
      rw [List.filter_cons_of_neg (by simpa [hkey] using hk), hkf]

/-- The RIDs that the index holds under the key are the live RIDs with the key. -/
theorem rids_perm (hstate : ScanState db toid table chain) {index : IndexInfo} (key : Int32)
    (hagrees : Agrees index (keyAt table.schema col chain)) :
    (index.rids key).Perm
      (chain.liveRids.filter fun rid => keyAt table.schema col chain rid == some key) := by
  have hnodup : (index.rids key).Nodup := by
    refine List.nodup_iff_count_le_one.mpr fun rid => ?_
    rw [hagrees.count]
    split
    · exact Nat.le_refl 1
    · exact Nat.zero_le 1
  refine (List.perm_ext_iff_of_nodup hnodup (hstate.heap.nodup_liveRids.filter _)).mpr fun rid => ?_
  rw [List.mem_filter, beq_iff_eq, HeapChain.mem_liveRids hstate.heap.nodup,
    ← List.count_pos_iff, hagrees.count]
  constructor
  · intro hpos
    have hkey : keyAt table.schema col chain rid = some key := by
      by_contra hne
      rw [if_neg hne] at hpos
      exact absurd hpos (Nat.lt_irrefl 0)
    refine ⟨fun hnone => ?_, hkey⟩
    rw [keyAt, hnone] at hkey
    cases hkey
  · rintro ⟨-, hkey⟩
    rw [if_pos hkey]
    exact Nat.one_pos

/-- What `Init` and the loop give, from the RIDs that the scan has to visit. -/
theorem run_eq (hstate : ScanState db toid table chain) (hequates : EquatesColumn predicate col key)
    (htype : (table.schema.getColumn col).map Column.type = some .integer) {plan : ScanPlan}
    {cursor : Cursor} {rids : List RID} (hpending : Pending chain cursor rids)
    (hlen : rids.length ≤ chain.liveRids.length)
    (hinit : ScanExecutor.init db plan =
      some (⟨table, some predicate.evaluate, cursor⟩, db.pages)) :
    ScanExecutor.run db plan =
      some (rowsOf table chain
        (rids.filter fun rid => keyAt table.schema col chain rid == some key), db.pages) := by
  have hfuel : rids.length < TableHeap.tupleFuel db.pages :=
    Nat.lt_of_le_of_lt hlen hstate.heap.length_liveRids_lt
  rw [ScanExecutor.run, hinit]
  dsimp only
  rw [runFrom_eq hstate.heap hpending hfuel]
  simp only [hstate.selectAll_eq hequates htype hpending.live, Option.map_some]

/-- `Init` of the sequential scan: all live RIDs are to be visited. -/
theorem init_seqScan (hstate : ScanState db toid table chain) (predicate : Option Expression) :
    ∃ cursor, ScanExecutor.init db (.seqScan toid predicate) =
        some (⟨table, predicate, cursor⟩, db.pages) ∧ Pending chain cursor chain.liveRids :=
  ⟨.seqScan (chain.liveRids.head?.getD TableHeap.endRid),
    by simp only [ScanExecutor.init, hstate.found, hstate.heap.begin],
    .seqScan (List.nil_append chain.liveRids).symm⟩

/-- The sequential scan visits all live RIDs. -/
theorem run_seqScan (hstate : ScanState db toid table chain)
    (hequates : EquatesColumn predicate col key)
    (htype : (table.schema.getColumn col).map Column.type = some .integer) :
    ScanExecutor.run db (ScanNode.seqScan toid (some predicate)).plan =
      some (rowsOf table chain
        (chain.liveRids.filter fun rid => keyAt table.schema col chain rid == some key),
        db.pages) := by
  obtain ⟨cursor, hinit, hpending⟩ := hstate.init_seqScan (some predicate.evaluate)
  exact hstate.run_eq hequates htype hpending (Nat.le_refl _) hinit

/-- `Init` of the index scan: the RIDs under the key are to be visited. -/
theorem init_indexScan (hstate : ScanState db toid table chain) {ioid : Nat} {index : IndexInfo}
    (hindex : db.catalog.getIndex ioid = some index) (hpoint : index.supportsPointLookup = true)
    (hagrees : Agrees index (keyAt table.schema col chain)) (key : Int32)
    (predicate : Option Expression) :
    ∃ cursor rids, ScanExecutor.init db
        (.indexScan toid ioid (some (some (.integer key))) predicate)
        = some (⟨table, predicate, cursor⟩, db.pages) ∧ Pending chain cursor rids ∧
      rids.Perm
        (chain.liveRids.filter fun rid => keyAt table.schema col chain rid == some key) := by
  have hperm := hstate.rids_perm key hagrees
  have hlookup : ScanExecutor.lookup index (some (some (.integer key))) =
      some (index.rids key) := by
    simp [ScanExecutor.lookup, hpoint, Value.isNull, Value.getTypeId]
  refine ⟨.indexScan (index.rids key), index.rids key, ?_, ?_, hperm⟩
  · simp only [ScanExecutor.init, hstate.found, hindex, hlookup]
  · exact .indexScan (hperm.nodup_iff.mpr (hstate.heap.nodup_liveRids.filter _))
      fun rid hrid => (List.mem_filter.mp (hperm.mem_iff.mp hrid)).1

/-- The index scan visits the RIDs under the key, which are all of them live. -/
theorem run_indexScan (hstate : ScanState db toid table chain)
    (hequates : EquatesColumn predicate col key)
    (htype : (table.schema.getColumn col).map Column.type = some .integer) {ioid : Nat}
    {index : IndexInfo} (hindex : db.catalog.getIndex ioid = some index)
    (hpoint : index.supportsPointLookup = true)
    (hagrees : Agrees index (keyAt table.schema col chain)) :
    ∃ rids, rids.Perm
        (chain.liveRids.filter fun rid => keyAt table.schema col chain rid == some key) ∧
      ScanExecutor.run db (ScanNode.indexScan toid ioid (some (.constant (.integer key)))
        (some predicate)).plan = some (rowsOf table chain rids, db.pages) := by
  obtain ⟨cursor, rids, hinit, hpending, hperm⟩ :=
    hstate.init_indexScan hindex hpoint hagrees key (some predicate.evaluate)
  have hlen : rids.length ≤ chain.liveRids.length := by
    rw [hperm.length_eq]
    exact List.length_filter_le _ _
  have hall : rids.filter (fun rid => keyAt table.schema col chain rid == some key) = rids :=
    List.filter_eq_self.mpr fun rid hrid => (List.mem_filter.mp (hperm.mem_iff.mp hrid)).2
  have hrun := hstate.run_eq hequates htype hpending hlen hinit
  rw [hall] at hrun
  exact ⟨rids, hperm, hrun⟩

end ScanState

/-- The index that is found is one of the table's on the column. -/
theorem findIndex_spec {c : Catalog} {col : Nat} {oids : List Nat} {index : IndexInfo}
    (h : findIndex c col oids = some index) :
    ∃ oid ∈ oids, c.getIndex oid = some index ∧ index.supportsPointLookup = true ∧
      index.getLookupAttr = some col := by
  induction oids with
  | nil => cases h
  | cons oid oids ih =>
    rw [findIndex] at h
    split at h
    · cases h
    · rename_i found hfound
      split at h
      · rename_i hmatch
        obtain rfl := Option.some.inj h
        exact ⟨oid, List.mem_cons_self, hfound, hmatch.1, hmatch.2⟩
      · obtain ⟨oid', hmem, hrest⟩ := ih h
        exact ⟨oid', List.mem_cons_of_mem _ hmem, hrest⟩

/-- The rule recognises the predicate. -/
theorem EquatesColumn.matchEquality {predicate : Expr} {col : Nat} {key : Int32}
    (h : EquatesColumn predicate col key) :
    OneBase.matchEquality predicate = some (col, .constant (.integer key)) := by
  obtain ⟨tupleIdx, type, rfl | rfl⟩ := h
  · rfl
  · rfl

/-- **What the rule makes of an equality**: the scan it was, or a lookup in an index of the table
on the column. -/
theorem optimizeSeqScanToIndexScan_cases {db : Database} {toid : Nat} {table : TableInfo}
    {chain : HeapChain} (hstate : ScanState db toid table chain) {predicate lookupKey : Expr}
    {col : Nat} (hmatch : matchEquality predicate = some (col, lookupKey)) {oids : List Nat}
    (horder : oids.Perm (db.catalog.getTableIndexes table.name)) :
    optimizeSeqScanToIndexScan db.catalog oids (.seqScan toid (some predicate)) =
        .seqScan toid (some predicate) ∨
      ∃ oid index, optimizeSeqScanToIndexScan db.catalog oids (.seqScan toid (some predicate)) =
          .indexScan toid oid (some lookupKey) (some predicate) ∧
        db.catalog.getIndex oid = some index ∧ index.supportsPointLookup = true ∧
        Agrees index (keyAt table.schema col chain) := by
  cases hfind : findIndex db.catalog col oids with
  | none =>
    left
    simp only [optimizeSeqScanToIndexScan, hmatch, hstate.found, hfind]
  | some index =>
    obtain ⟨oid, hmem, hindex, hpoint, hattr⟩ := findIndex_spec hfind
    -- the index belongs to the table, so it agrees with the heap on its one column
    obtain ⟨index', hindex', hname⟩ :=
      hstate.catalog.mem_getTableIndexes.mp (horder.mem_iff.mp hmem)
    rw [hindex] at hindex'
    obtain rfl := Option.some.inj hindex'
    obtain ⟨attr, hattrs, -⟩ := hstate.catalog.point hstate.found hindex hname hpoint
    rw [IndexInfo.getLookupAttr, hattrs] at hattr
    obtain rfl := Option.some.inj hattr
    refine .inr ⟨oid, index, ?_, hindex, hpoint, hstate.agrees hindex hname hpoint hattrs⟩
    simp only [optimizeSeqScanToIndexScan, hmatch, hstate.found, hfind,
      hstate.catalog.index_oid hindex]

/-- **The optimised plan yields the rows of the sequential scan**, in whatever order
the indexes of the table are tried, and neither plan changes a page. -/
theorem optimizeSeqScanToIndexScan_perm {db : Database} {toid : Nat} {table : TableInfo}
    {chain : HeapChain} (hstate : ScanState db toid table chain) {predicate : Expr} {col : Nat}
    {key : Int32} (hequates : EquatesColumn predicate col key)
    (htype : (table.schema.getColumn col).map Column.type = some .integer) {oids : List Nat}
    (horder : oids.Perm (db.catalog.getTableIndexes table.name)) :
    ∃ rows rows',
      ScanExecutor.run db (ScanNode.seqScan toid (some predicate)).plan = some (rows, db.pages) ∧
      ScanExecutor.run db (optimizeSeqScanToIndexScan db.catalog oids
        (.seqScan toid (some predicate))).plan = some (rows', db.pages) ∧
      rows'.Perm rows := by
  have hseq := hstate.run_seqScan hequates htype
  rcases optimizeSeqScanToIndexScan_cases hstate hequates.matchEquality horder with
    hsame | ⟨oid, index, hoptimised, hindex, hpoint, hagrees⟩
  · rw [hsame]
    exact ⟨_, _, hseq, hseq, List.Perm.refl _⟩
  · obtain ⟨rids, hperm, hrun⟩ := hstate.run_indexScan hequates htype hindex hpoint hagrees
    rw [hoptimised]
    exact ⟨_, _, hseq, hrun, hperm.filterMap _⟩

/-- Every database that statements lead to is such a state. -/
theorem DbInv.scanState {db : Database} {chains : Nat → HeapChain} (hinv : DbInv db chains)
    {toid : Nat} {table : TableInfo} (htable : db.catalog.getTable toid = some table) :
    ScanState db toid table (chains toid) where
  catalog := hinv.catalog
  found := htable
  heap := hinv.heap htable
  rows := fun {rid bytes} hlive => by
    obtain ⟨values, hrow, hbytes⟩ := hinv.rows htable hlive
    have hlen : values.length = table.schema.getColumnCount :=
      hrow.length_eq.symm.trans table.schema.getColumnCount_eq.symm
    have hvalues : (Tuple.ofBytes rid bytes).getValues table.schema = some values := by
      refine Tuple.getValuesFrom_eq hlen fun j hj => ?_
      rw [Nat.zero_add]
      exact getValue_ofBytes (hinv.fixed htable) hrow hbytes rid hj
    exact ⟨{ data := bytes, values },
      by simp [ScanExecutor.rebuild, hvalues, Tuple.ofValues, hbytes]⟩
  agrees := fun hindex hname hpoint hattrs => hinv.agrees htable hindex hname hpoint hattrs

/-- The predicate `a = 7` on a table with an index on `a`. -/
theorem optimizeSeqScanToIndexScan_perm_row : ∃ (db : Database) (index : IndexInfo)
    (rows rows' : List (Tuple × RID)), db.catalog.getIndex 1 = some index ∧
      index.supportsPointLookup = true ∧
      ScanExecutor.run db (ScanNode.seqScan 1 (some (.comparison (.columnValue 0 0 .integer)
        (.constant (.integer 7)) .equal))).plan = some (rows, db.pages) ∧
      ScanExecutor.run db (optimizeSeqScanToIndexScan db.catalog
        (db.catalog.getTableIndexes "t") (.seqScan 1 (some (.comparison
          (.columnValue 0 0 .integer) (.constant (.integer 7)) .equal)))).plan =
        some (rows', db.pages) ∧
      rows'.Perm rows := by
  obtain ⟨_, db, _, -, -, -, -, hrun, hrows⟩ := exists_rowsInserted
  obtain ⟨index, hindex, -, -, hpoint⟩ := hrows.index
  obtain ⟨chains, hinv⟩ := hrun.inv emptyStore_ok
  have hequates : EquatesColumn (.comparison (.columnValue 0 0 .integer)
      (.constant (.integer 7)) .equal) 0 7 := ⟨0, .integer, .inl rfl⟩
  obtain ⟨rows, rows', hseq, hopt, hperm⟩ := optimizeSeqScanToIndexScan_perm
    (hinv.scanState hrows.table) hequates rfl (List.Perm.refl (db.catalog.getTableIndexes "t"))
  exact ⟨db, index, rows, rows', hindex, hpoint, hseq, hopt, hperm⟩

end OneBase
