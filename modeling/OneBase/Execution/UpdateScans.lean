import OneBase.Execution.UpdateOnce
import OneBase.Optimizer.SeqScanToIndexScan

/-!
# Updates over the two scans

The child of an update is a sequential scan, or the index scan that the optimizer makes of it. The
two visit the rows in different orders, and they stop at different rows; they find the same rows
that satisfy the predicate.

- `ChildOf`: the two children, and `ChildOf.start`: what they have to visit.
- `Updated`, `SameContents`: what a statement does.
- `updateNext_once`: it updates every matching row once, whichever child it has.
-/

namespace OneBase

open Cpp PageStore

namespace UpdateExecutor

variable {toid : Nat} {table : TableInfo} {predicate : Option Expression}
  {updateExprs : List Expression} {oids : List Nat} {c₀ : Catalog} {chain chain₀ : HeapChain}

/-! ## The two children -/

/-- A predicate that equates a column with a constant, either way round. -/
def ComparesColumn (predicate : Expr) (col : Nat) (v : Value) : Prop :=
  ∃ tupleIdx type,
    predicate = .comparison (.columnValue tupleIdx col type) (.constant v) .equal ∨
    predicate = .comparison (.constant v) (.columnValue tupleIdx col type) .equal

/-- The scans that the statement can have as its child: the sequential one, and what the optimizer
makes of it if the predicate equates an INTEGER column with a constant that is not NULL. -/
inductive ChildOf (c : Catalog) (toid : Nat) (table : TableInfo) :
    Option Expression → ScanPlan → Prop where
  | seqScan (predicate : Option Expression) :
      ChildOf c toid table predicate (.seqScan toid predicate)
  | optimized {predicate : Expr} {col : Nat} {v : Value} {order : List Nat} :
      ComparesColumn predicate col v → v.isNull = false →
      (table.schema.getColumn col).map Column.type = some .integer →
      order.Perm (c.getTableIndexes table.name) →
      ChildOf c toid table (some predicate.evaluate)
        (optimizeSeqScanToIndexScan c order (.seqScan toid (some predicate))).plan

/-- **The rows that an equality is satisfied by** have the constant as their key. With a constant
of another type the comparison throws on every row. -/
theorem matching_isSome_iff {db : Database} (hstate : ScanState db toid table chain)
    {predicate : Expr} {col : Nat} {v : Value} (hcompares : ComparesColumn predicate col v)
    (hnull : v.isNull = false)
    (htype : (table.schema.getColumn col).map Column.type = some .integer) {rid : RID}
    (hlive : rid ∈ chain.liveRids) :
    (matching table (some predicate.evaluate) chain rid).isSome = true ↔
      ∃ key, v = .integer key ∧ keyAt table.schema col chain rid = some key := by
  obtain ⟨bytes, hbytes⟩ := Option.ne_none_iff_exists'.mp
    ((HeapChain.mem_liveRids hstate.heap.nodup rid).mp hlive)
  obtain ⟨row, hrow⟩ := hstate.rows hbytes
  obtain ⟨k, hvalue, hkey⟩ := old_key hbytes hrow htype
  have hselects : ScanExecutor.selects (some predicate.evaluate) row table.schema = some true ↔
      v = .integer k := by
    obtain ⟨tupleIdx, type, rfl | rfl⟩ := hcompares
    · cases v with
      | null t => cases hnull
      | integer i =>
        simp [ScanExecutor.selects, Expr.evaluate, Expr.evaluateWith, hvalue,
          ComparisonType.perform, Value.compareEquals, Value.compareWith, Value.getTypeId,
          Value.isNull, Value.getAsBoolean]
        exact eq_comm
      | _ =>
        simp [ScanExecutor.selects, Expr.evaluate, Expr.evaluateWith, hvalue,
          ComparisonType.perform, Value.compareEquals, Value.compareWith, Value.getTypeId]
    · cases v with
      | null t => cases hnull
      | integer i =>
        simp [ScanExecutor.selects, Expr.evaluate, Expr.evaluateWith, hvalue,
          ComparisonType.perform, Value.compareEquals, Value.compareWith, Value.getTypeId,
          Value.isNull, Value.getAsBoolean]
      | _ =>
        simp [ScanExecutor.selects, Expr.evaluate, Expr.evaluateWith, hvalue,
          ComparisonType.perform, Value.compareEquals, Value.compareWith, Value.getTypeId]
  rw [matching, hbytes, Option.getD_some, hrow]
  dsimp only
  split
  · rename_i htrue
    exact iff_of_true rfl ⟨k, hselects.mp htrue, hkey⟩
  · rename_i hfalse
    refine iff_of_false Bool.false_ne_true ?_
    rintro ⟨key, rfl, hkey'⟩
    rw [hkey] at hkey'
    obtain rfl := Option.some.inj hkey'
    exact hfalse (hselects.mpr rfl)

/-- **`Init` of the child**: the RIDs that are to be visited include those of all rows that satisfy
the predicate, each once. -/
theorem ChildOf.start {db : Database} (hstate : ScanState db toid table chain) {plan : ScanPlan}
    (hchild : ChildOf db.catalog toid table predicate plan) :
    ∃ cursor rids, ScanExecutor.init db plan = some (⟨table, predicate, cursor⟩, db.pages) ∧
      Pending chain cursor rids ∧ rids.length ≤ chain.liveRids.length ∧
      (matchingRids table predicate chain rids).Perm
        (matchingRids table predicate chain chain.liveRids) := by
  cases hchild with
  | seqScan =>
    obtain ⟨cursor, hinit, hpending⟩ := hstate.init_seqScan predicate
    exact ⟨cursor, chain.liveRids, hinit, hpending, Nat.le_refl _, .refl _⟩
  | @optimized predicate col v order hcompares hnull htype horder =>
    have hmatch : matchEquality predicate = some (col, .constant v) := by
      obtain ⟨tupleIdx, type, rfl | rfl⟩ := hcompares
      · rfl
      · cases v <;> rfl
    have hiff : ∀ rid ∈ chain.liveRids,
        (matching table (some predicate.evaluate) chain rid).isSome = true ↔
          ∃ key, v = .integer key ∧ keyAt table.schema col chain rid = some key :=
      fun _ => matching_isSome_iff hstate hcompares hnull htype
    rcases optimizeSeqScanToIndexScan_cases hstate hmatch horder with
      hsame | ⟨oid, index, hoptimized, hindex, hpoint, hagrees⟩
    · rw [hsame]
      obtain ⟨cursor, hinit, hpending⟩ := hstate.init_seqScan (some predicate.evaluate)
      exact ⟨cursor, chain.liveRids, hinit, hpending, Nat.le_refl _, .refl _⟩
    · rw [hoptimized]
      by_cases hint : ∃ key, v = .integer key
      · obtain ⟨key, rfl⟩ := hint
        obtain ⟨cursor, rids, hinit, hpending, hperm⟩ :=
          hstate.init_indexScan hindex hpoint hagrees key (some predicate.evaluate)
        refine ⟨cursor, rids, hinit, hpending, ?_, ?_⟩
        · rw [hperm.length_eq]
          exact List.length_filter_le _ _
        · -- the RIDs under the key are those of the rows that match
          have hmatching : matchingRids table (some predicate.evaluate) chain chain.liveRids =
              chain.liveRids.filter fun rid => keyAt table.schema col chain rid == some key := by
            refine List.filter_congr fun rid hrid => Bool.eq_iff_iff.mpr ?_
            rw [hiff rid hrid, beq_iff_eq]
            simp
          have hall : matchingRids table (some predicate.evaluate) chain rids = rids := by
            refine List.filter_eq_self.mpr fun rid hrid => ?_
            obtain ⟨hlive, hkey⟩ := List.mem_filter.mp (hperm.mem_iff.mp hrid)
            exact (hiff rid hlive).mpr ⟨key, rfl, beq_iff_eq.mp hkey⟩
          rw [hmatching, hall]
          exact hperm
      · -- no row matches, and there is nothing under the key
        have hnone : matchingRids table (some predicate.evaluate) chain chain.liveRids = [] := by
          refine List.filter_eq_nil_iff.mpr fun rid hrid hsome => ?_
          obtain ⟨key, hv, -⟩ := (hiff rid hrid).mp hsome
          exact hint ⟨key, hv⟩
        have hlookup : ScanExecutor.lookup index (some (some v)) = some [] := by
          have htypeId : v.getTypeId ≠ .integer := by
            cases v with
            | null t => cases hnull
            | integer i => exact absurd ⟨i, rfl⟩ hint
            | _ =>
              intro h
              cases h
          simp [ScanExecutor.lookup, hpoint, htypeId]
        refine ⟨.indexScan [], [], ?_, .indexScan List.nodup_nil (List.nil_subset _),
          Nat.zero_le _, ?_⟩
        · simp only [ScanNode.plan, ScanExecutor.init, hstate.found, hindex, Option.map_some,
            Expr.evaluateNull, Expr.evaluateWith, hlookup]
        · rw [hnone]
          exact .nil

/-! ## The statement -/

/-- The calls of `UpdateTuple` of a statement. -/
def statementCalls (updateExprs : List Expression) (fuel : Nat) (plan : ScanPlan) (db : Database)
    (tableOid : Nat) (indexes : List Nat) : List (RID × Tuple) :=
  match ScanExecutor.init db plan with
  | none => []
  | some (scan, pages) =>
    match db.catalog.getTable tableOid with
    | none => []
    | some table => calls table updateExprs indexes fuel scan { db with pages } 0

/-- Every `UpdateTuple` of the statement succeeds and replaces only the addressed tuple. -/
def UpdatesSucceed (updateExprs : List Expression) (plan : ScanPlan) (db : Database)
    (tableOid : Nat) (indexes : List Nat) : Prop :=
  ∀ fuel scan pages table, ScanExecutor.init db plan = some (scan, pages) →
    db.catalog.getTable tableOid = some table →
    EachRow table updateExprs indexes (fun db rid new _ _ => Replaces table db rid new) fuel scan
      { db with pages } 0

/-- What a statement does that makes these calls and reports `n` rows: each row that satisfies
the predicate in `chain` is updated once, to its new tuple, and nothing else. -/
structure Updated (toid : Nat) (table : TableInfo) (predicate : Option Expression)
    (updateExprs : List Expression) (oids : List Nat) (c₀ : Catalog) (chain : HeapChain)
    (calls : List (RID × Tuple)) (n : Int32) (db' : Database) : Prop where
  once : (calls.map Prod.fst).Perm (matchingRids table predicate chain chain.liveRids)
  new : ∀ c ∈ calls, newAt table predicate updateExprs chain c.1 = some c.2
  count : n = Int32.ofNat (matchingRids table predicate chain chain.liveRids).length
  reported : (matchingRids table predicate chain chain.liveRids).length < 2 ^ 31 →
    n.toInt = (matchingRids table predicate chain chain.liveRids).length
  applied : ∃ chain', Applied toid table predicate updateExprs oids c₀ chain
    (matchingRids table predicate chain chain.liveRids) db' chain'

/-- Two databases have the same table contents, and the same indexes with the same RIDs under
each key. -/
def SameContents (table : TableInfo) (db₁ db₂ : Database) : Prop :=
  (∃ chain₁ chain₂, HeapRep table.table db₁.pages chain₁ ∧ HeapRep table.table db₂.pages chain₂ ∧
    ∀ rid, chain₁.tupleAt rid = chain₂.tupleAt rid) ∧
  ∀ ioid, (db₁.catalog.getIndex ioid).map withoutEntries =
      (db₂.catalog.getIndex ioid).map withoutEntries ∧
    ∀ index₁ index₂, db₁.catalog.getIndex ioid = some index₁ →
      db₂.catalog.getIndex ioid = some index₂ → index₁.tableName = table.name →
      index₁.supportsPointLookup = true →
      ∀ key, (index₁.rids key).Perm (index₂.rids key)

/-- The order in which the rows were updated does not matter. -/
theorem Applied.perm {done done' : List RID} {db : Database}
    (h : Applied toid table predicate updateExprs oids c₀ chain₀ done db chain)
    (hperm : done.Perm done') :
    Applied toid table predicate updateExprs oids c₀ chain₀ done' db chain where
  catalog := h.catalog
  found := h.found
  lists := h.lists
  heap := h.heap
  tupleAt := fun rid => by
    rw [h.tupleAt, bytesAfter, bytesAfter]
    simp only [hperm.mem_iff]
  indexes := h.indexes
  agrees := fun hindex hname hpoint hattr =>
    (h.agrees hindex hname hpoint hattr).congr fun rid => by
      rw [keyAfter, keyAfter]
      simp only [hperm.mem_iff]

/-- What was updated determines the contents. -/
theorem Applied.sameContents {done : List RID} {db₁ db₂ : Database} {chain₁ chain₂ : HeapChain}
    (h₁ : Applied toid table predicate updateExprs oids c₀ chain₀ done db₁ chain₁)
    (h₂ : Applied toid table predicate updateExprs oids c₀ chain₀ done db₂ chain₂) :
    SameContents table db₁ db₂ := by
  constructor
  · exact ⟨chain₁, chain₂, h₁.heap, h₂.heap, fun rid =>
      (h₁.tupleAt rid).trans (h₂.tupleAt rid).symm⟩
  · intro ioid
    have hsame := (h₁.indexes ioid).trans (h₂.indexes ioid).symm
    refine ⟨hsame, fun index₁ index₂ hindex₁ hindex₂ hname hpoint key => ?_⟩
    rw [hindex₁, hindex₂, Option.map_some, Option.map_some, Option.some_inj] at hsame
    obtain ⟨attr, hattr, -⟩ := h₁.catalog.point h₁.found hindex₁ hname hpoint
    have hname₂ : index₂.tableName = table.name :=
      (congrArg IndexInfo.tableName hsame).symm.trans hname
    have hpoint₂ : index₂.supportsPointLookup = true :=
      (congrArg IndexInfo.supportsPointLookup hsame).symm.trans hpoint
    have hattr₂ : index₂.keyAttrs = [attr] := (congrArg IndexInfo.keyAttrs hsame).symm.trans hattr
    refine List.perm_iff_count.mpr fun rid => ?_
    rw [(h₁.agrees hindex₁ hname hpoint hattr).count,
      (h₂.agrees hindex₂ hname₂ hpoint₂ hattr₂).count]

/-- Before the statement nothing is done. -/
theorem Progress.start {db : Database} (hstate : ScanState db toid table chain)
    (hperm : oids.Perm (db.catalog.getTableIndexes table.name)) {cursor : Cursor}
    {rids : List RID} (hpending : Pending chain cursor rids) :
    Progress toid table predicate updateExprs oids db.catalog chain [] rids
      ⟨table, predicate, cursor⟩ db chain :=
  ⟨⟨hstate.catalog, hstate.found, hstate.catalog.listsIndexes hperm, hstate.heap,
      fun _ => by rw [bytesAfter, if_neg List.not_mem_nil], fun _ => rfl,
      fun hindex hname hpoint hattr => (hstate.agrees hindex hname hpoint hattr).congr fun _ => by
        rw [keyAfter, if_neg List.not_mem_nil]⟩,
    rfl, rfl, hpending, fun _ _ => List.not_mem_nil⟩

/-- What the child returns is a row of the table. -/
theorem LoopOk.live {scan : ScanExecutor} {db : Database}
    (h : LoopOk toid table oids scan db chain) {tuple : Tuple} {rid : RID} {cursor : Cursor}
    {pages : PageStore TablePage}
    (hnext : scan.next db.pages = some (some (tuple, rid), cursor, pages)) :
    ∃ bytes, chain.tupleAt rid = some bytes := by
  obtain ⟨rids, hpending⟩ := h.pending
  obtain ⟨-, hyields⟩ := ScanExecutor.next_spec (h.tableInfo ▸ h.ok.heap) hpending hnext
  obtain ⟨-, bytes, -, -, -, hlive, -⟩ := hyields tuple rid rfl
  exact ⟨bytes, hlive⟩

/-- A row that fits is replaced. -/
theorem LoopOk.eachRow_replaces {fuel : Nat} :
    ∀ {scan : ScanExecutor} {db : Database} {chain : HeapChain} {updateCount : Int32},
      LoopOk toid table oids scan db chain →
      EachRow table updateExprs oids (fun db rid new _ _ => Fits table db rid new) fuel scan db
        updateCount →
      EachRow table updateExprs oids (fun db rid new _ _ => Replaces table db rid new) fuel scan db
        updateCount := by
  induction fuel with
  | zero => exact fun _ _ => trivial
  | succ fuel ih =>
    intro scan db chain updateCount h hall old rid cursor pages new result hnext hnew hrow
    obtain ⟨hfits, hrest⟩ := hall old rid cursor pages new result hnext hnew hrow
    obtain ⟨chain', h'⟩ := (h.turn hnext hnew hrow).2 hfits
    obtain ⟨bytes, hlive⟩ := h.live hnext
    obtain rfl := h.next_pages hnext
    exact ⟨replaces_of_room h.ok.heap hlive hfits.nonempty hfits.room, ih h' hrest⟩

/-- **Every call of `UpdateTuple` succeeds** if the page of each row has room for the new tuples of
all that are visited. -/
theorem updatesSucceed_of_room {db : Database} (hstate : ScanState db toid table chain)
    (hperm : oids.Perm (db.catalog.getTableIndexes table.name)) {plan : ScanPlan}
    {cursor : Cursor} {rids : List RID} {size : Nat}
    (hinit : ScanExecutor.init db plan = some (⟨table, predicate, cursor⟩, db.pages))
    (hpending : Pending chain cursor rids) (hsize : AtMost table updateExprs size)
    (hroom : ∀ rid ∈ rids, rids.length * size ≤
      (db.pages.pages rid.pageId).getFreeSpaceRemaining) :
    UpdatesSucceed updateExprs plan db toid oids := by
  intro fuel scan pages table' hscan hfound
  obtain ⟨rfl, rfl⟩ := Prod.mk.inj (Option.some.inj (hinit.symm.trans hscan))
  obtain rfl := Option.some.inj (hstate.found.symm.trans hfound)
  have hloop : LoopOk toid table oids ⟨table, predicate, cursor⟩ db chain :=
    ⟨⟨hstate.catalog, hstate.found, hstate.heap, hstate.agrees⟩,
      hstate.catalog.listsIndexes hperm, rfl, rids, hpending⟩
  exact hloop.eachRow_replaces (hloop.eachRow_fits hsize hpending hroom)

/-- **A statement that returns** has updated each matching row once. -/
theorem ChildOf.updated {db : Database} (hstate : ScanState db toid table chain)
    (hperm : oids.Perm (db.catalog.getTableIndexes table.name)) {plan : ScanPlan}
    (hchild : ChildOf db.catalog toid table predicate plan)
    (hsucceed : UpdatesSucceed updateExprs plan db toid oids) {fuel : Nat} {n : Int32}
    {db' : Database}
    (hnext : UpdateExecutor.next updateExprs fuel plan db toid oids = some (n, db')) :
    Updated toid table predicate updateExprs oids db.catalog chain
      (statementCalls updateExprs fuel plan db toid oids) n db' := by
  obtain ⟨cursor, rids, hinit, hpending, -, hrids⟩ := hchild.start hstate
  have heach := hsucceed fuel _ _ table hinit hstate.found
  simp only [UpdateExecutor.next, hinit, hstate.found] at hnext
  obtain ⟨hcalls, hnew, hn, chain', happlied⟩ :=
    (Progress.start hstate hperm hpending).loop heach hnext
  rw [List.nil_append] at happlied
  have hcount : n = Int32.ofNat (matchingRids table predicate chain chain.liveRids).length := by
    rw [hn, hrids.length_eq]
    exact Int32.zero_add _
  constructor
  · simp only [statementCalls, hinit, hstate.found]
    rw [hcalls]
    exact hrids
  · simpa only [statementCalls, hinit, hstate.found] using hnew
  · exact hcount
  · exact fun hlt => hcount ▸ Int32.toInt_ofNat_of_lt hlt
  · exact ⟨chain', happlied.perm hrids⟩

/-- **A statement returns** if no expression throws. -/
theorem ChildOf.exists_next {db : Database} (hstate : ScanState db toid table chain)
    (hperm : oids.Perm (db.catalog.getTableIndexes table.name)) {plan : ScanPlan}
    (hchild : ChildOf db.catalog toid table predicate plan)
    (hsucceed : UpdatesSucceed updateExprs plan db toid oids)
    (heval : Evaluates table predicate updateExprs chain) {fuel : Nat}
    (hfuel : chain.liveRids.length < fuel) :
    ∃ n db', UpdateExecutor.next updateExprs fuel plan db toid oids = some (n, db') := by
  obtain ⟨cursor, rids, hinit, hpending, hlen, -⟩ := hchild.start hstate
  have heach := hsucceed fuel _ _ table hinit hstate.found
  obtain ⟨⟨n, db'⟩, hloop⟩ := (Progress.start hstate hperm hpending).exists_loop heval heach
    (Nat.lt_of_le_of_lt hlen hfuel)
  exact ⟨n, db', by simp only [UpdateExecutor.next, hinit, hstate.found, hloop]⟩

end UpdateExecutor

open UpdateExecutor

/-- **Every matching row is updated exactly once**, whether the child is the sequential scan or what
the optimizer makes of it, and both leave the same contents. The statement returns if no expression
throws. -/
theorem updateNext_once {db : Database} {toid : Nat} {table : TableInfo} {chain : HeapChain}
    (hstate : ScanState db toid table chain) {oids : List Nat}
    (hperm : oids.Perm (db.catalog.getTableIndexes table.name)) {predicate : Option Expression}
    {plan : ScanPlan} (hchild : ChildOf db.catalog toid table predicate plan)
    {updateExprs : List Expression} (hsucceed : UpdatesSucceed updateExprs plan db toid oids) :
    (∀ fuel n db', UpdateExecutor.next updateExprs fuel plan db toid oids = some (n, db') →
      Updated toid table predicate updateExprs oids db.catalog chain
        (statementCalls updateExprs fuel plan db toid oids) n db') ∧
    (Evaluates table predicate updateExprs chain → ∀ fuel, chain.liveRids.length < fuel →
      ∃ n db', UpdateExecutor.next updateExprs fuel plan db toid oids = some (n, db')) ∧
    ∀ plan', ChildOf db.catalog toid table predicate plan' →
      UpdatesSucceed updateExprs plan' db toid oids → ∀ fuel fuel' n n' db₁ db₂,
        UpdateExecutor.next updateExprs fuel plan db toid oids = some (n, db₁) →
        UpdateExecutor.next updateExprs fuel' plan' db toid oids = some (n', db₂) →
        n = n' ∧ SameContents table db₁ db₂ := by
  refine ⟨fun fuel n db' hnext => hchild.updated hstate hperm hsucceed hnext,
    fun heval fuel hfuel => hchild.exists_next hstate hperm hsucceed heval hfuel, ?_⟩
  intro plan' hchild' hsucceed' fuel fuel' n n' db₁ db₂ hnext hnext'
  have h := hchild.updated hstate hperm hsucceed hnext
  have h' := hchild'.updated hstate hperm hsucceed' hnext'
  obtain ⟨chain₁, h₁⟩ := h.applied
  obtain ⟨chain₂, h₂⟩ := h'.applied
  exact ⟨h.count.trans h'.count.symm, h₁.sameContents h₂⟩

/-! ### Two rows of three -/

/-- The predicate `a = v`. -/
def aEquals (v : Value) : Expr := .comparison (.columnValue 0 0 .integer) (.constant v) .equal

/-- It is satisfied by the rows `(0)`, and not by `(5)`. -/
structure SelectsZero (v : Value) : Prop where
  zero : ScanExecutor.selects (some (aEquals v).evaluate)
    { data := zeroRow, values := [.integer 0] } integerTable.schema = some true
  five : ScanExecutor.selects (some (aEquals v).evaluate)
    { data := fiveBytes, values := [.integer 5] } integerTable.schema = some false

theorem bytes_threeRows {rid : RID} {bytes : List UInt8}
    (hlive : threeRows.tupleAt rid = some bytes) : bytes = zeroRow ∨ bytes = fiveBytes := by
  obtain ⟨slots, hmem, hslot, -⟩ := HeapChain.tupleAt_eq_some hlive
  obtain ⟨-, rfl⟩ := Prod.mk.inj (List.mem_singleton.mp hmem)
  have hmem := List.mem_of_getElem? hslot
  simp only [List.mem_cons, List.not_mem_nil, or_false] at hmem
  rcases hmem with hzero | hfive | hzero
  · exact .inl hzero
  · exact .inr hfive
  · exact .inl hzero

theorem scanState_threeRows {db : Database} (hok : TableOk db 1 integerTable threeRows) :
    ScanState db 1 integerTable threeRows where
  catalog := hok.catalog
  found := hok.getTable
  heap := hok.heap
  rows := fun hlive => by
    rcases bytes_threeRows hlive with rfl | rfl
    · exact ⟨_, rebuild_zeroRow _⟩
    · exact ⟨_, rebuild_fiveBytes _⟩
  agrees := hok.agrees

theorem SelectsZero.evaluates {v : Value} (h : SelectsZero v) :
    Evaluates integerTable (some (aEquals v).evaluate) setEight threeRows where
  selects := fun hlive => by
    rcases bytes_threeRows hlive with rfl | rfl
    · exact ⟨_, _, rebuild_zeroRow _, h.zero⟩
    · exact ⟨_, _, rebuild_fiveBytes _, h.five⟩
  new := fun _ => ⟨_, rfl⟩
  columns := rfl

theorem SelectsZero.matching {v : Value} (h : SelectsZero v) {rid : RID}
    (hlive : threeRows.tupleAt rid = some zeroRow) :
    matching integerTable (some (aEquals v).evaluate) threeRows rid =
      some { data := zeroRow, values := [.integer 0] } := by
  rw [UpdateExecutor.matching, hlive, Option.getD_some, rebuild_zeroRow]
  simp only [h.zero, if_true]

theorem SelectsZero.matchingRids {v : Value} (h : SelectsZero v) :
    matchingRids integerTable (some (aEquals v).evaluate) threeRows threeRows.liveRids =
      [⟨0, 0⟩, ⟨0, 2⟩] := by
  have hfive : UpdateExecutor.matching integerTable (some (aEquals v).evaluate) threeRows ⟨0, 1⟩ =
      none := by
    have hlive : threeRows.tupleAt ⟨0, 1⟩ = some fiveBytes := rfl
    rw [UpdateExecutor.matching, hlive, Option.getD_some, rebuild_fiveBytes]
    simp [h.five]
  have hrids : threeRows.liveRids = [⟨0, 0⟩, ⟨0, 1⟩, ⟨0, 2⟩] := rfl
  have hfirst := @SelectsZero.matching v h ⟨0, 0⟩ rfl
  have hlast := @SelectsZero.matching v h ⟨0, 2⟩ rfl
  rw [UpdateExecutor.matchingRids, hrids]
  simp [hfirst, hfive, hlast]

/-- `UPDATE t SET a = 8 WHERE a = 0` updates two rows of three, with either child. -/
theorem updateNext_once_rows : ∃ (db db₁ db₂ : Database),
    ScanState db 1 integerTable threeRows ∧
    UpdateExecutor.next setEight 4 (ScanNode.seqScan 1 (some (aEquals (.integer 0)))).plan db 1
      [1] = some (2, db₁) ∧
    UpdateExecutor.next setEight 4 (optimizeSeqScanToIndexScan db.catalog [1]
      (.seqScan 1 (some (aEquals (.integer 0))))).plan db 1 [1] = some (2, db₂) ∧
    SameContents integerTable db₁ db₂ := by
  obtain ⟨pages, hok, hfree⟩ := exists_threeRows
  have hstate := scanState_threeRows hok
  have hzero : SelectsZero (.integer 0) := ⟨by decide, by decide⟩
  have hchild : ChildOf (singleCatalog integerTable threeIndex) 1 integerTable
      (some (aEquals (.integer 0)).evaluate)
      (ScanNode.seqScan 1 (some (aEquals (.integer 0)))).plan := .seqScan _
  have hchild' : ChildOf (singleCatalog integerTable threeIndex) 1 integerTable
      (some (aEquals (.integer 0)).evaluate)
      (optimizeSeqScanToIndexScan (singleCatalog integerTable threeIndex) [1]
        (.seqScan 1 (some (aEquals (.integer 0))))).plan :=
    .optimized ⟨0, .integer, .inl rfl⟩ rfl rfl (.refl _)
  have hsucceed : ∀ {plan}, ChildOf (singleCatalog integerTable threeIndex) 1 integerTable
      (some (aEquals (.integer 0)).evaluate) plan →
      UpdatesSucceed setEight plan ⟨singleCatalog integerTable threeIndex, pages⟩ 1 [1] := by
    intro plan hplan
    obtain ⟨cursor, rids, hinit, hpending, hlen, -⟩ := hplan.start hstate
    refine updatesSucceed_of_room hstate (.refl _) hinit hpending atMost_setEight fun rid _ => ?_
    exact Nat.le_trans (Nat.mul_le_mul_right 4 hlen) (hfree rid.pageId)
  obtain ⟨hupdated, hexists, hsame⟩ := updateNext_once hstate (.refl _) hchild (hsucceed hchild)
  obtain ⟨hupdated', hexists', -⟩ := updateNext_once hstate (.refl _) hchild' (hsucceed hchild')
  obtain ⟨n, db₁, hnext⟩ := hexists hzero.evaluates 4 (by decide)
  obtain ⟨n', db₂, hnext'⟩ := hexists' hzero.evaluates 4 (by decide)
  obtain rfl : n = 2 := by rw [(hupdated _ _ _ hnext).count, hzero.matchingRids]; rfl
  obtain rfl : n' = 2 := by rw [(hupdated' _ _ _ hnext').count, hzero.matchingRids]; rfl
  exact ⟨_, db₁, db₂, hstate, hnext, hnext',
    (hsame _ hchild' (hsucceed hchild') _ _ _ _ _ _ hnext hnext').2⟩

/-- **`UPDATE t SET a = 8 WHERE a = NULL`**, with a NULL of type INTEGER: `CompareEquals` takes its
payload 0 for a key, the index scan does not. -/
theorem updateNext_nullKey : ∃ (db : Database) (chain : HeapChain) (db₁ db₂ : Database),
    ScanState db 1 integerTable chain ∧ db.catalog.getTableIndexes "t" = [1] ∧
    UpdatesSucceed setEight (ScanNode.seqScan 1 (some (aEquals (.null .integer)))).plan db 1 [1] ∧
    UpdatesSucceed setEight (optimizeSeqScanToIndexScan db.catalog [1]
      (.seqScan 1 (some (aEquals (.null .integer))))).plan db 1 [1] ∧
    UpdateExecutor.next setEight 4 (ScanNode.seqScan 1 (some (aEquals (.null .integer)))).plan db 1
      [1] = some (2, db₁) ∧
    UpdateExecutor.next setEight 4 (optimizeSeqScanToIndexScan db.catalog [1]
      (.seqScan 1 (some (aEquals (.null .integer))))).plan db 1 [1] = some (0, db₂) ∧
    ¬ SameContents integerTable db₁ db₂ := by
  obtain ⟨pages, hok, hfree⟩ := exists_threeRows
  have hstate := scanState_threeRows hok
  -- the sequential scan takes the rows for ones with the key
  have hzero : SelectsZero (.null .integer) := ⟨by decide, by decide⟩
  have hchild : ChildOf (singleCatalog integerTable threeIndex) 1 integerTable
      (some (aEquals (.null .integer)).evaluate)
      (ScanNode.seqScan 1 (some (aEquals (.null .integer)))).plan := .seqScan _
  obtain ⟨cursor, rids, hinit, hpending, hlen, -⟩ := hchild.start hstate
  have hsucceed := updatesSucceed_of_room hstate (.refl _) hinit hpending atMost_setEight
    fun rid _ => Nat.le_trans (Nat.mul_le_mul_right 4 hlen) (hfree rid.pageId)
  obtain ⟨n, db₁, hnext⟩ := hchild.exists_next hstate (.refl _) hsucceed hzero.evaluates
    (by decide : threeRows.liveRids.length < 4)
  have hupdated := hchild.updated hstate (.refl _) hsucceed hnext
  obtain rfl : n = 2 := by rw [hupdated.count, hzero.matchingRids]; rfl
  obtain ⟨chain', happlied⟩ := hupdated.applied
  -- the index scan has nothing to visit
  have hinit' : ScanExecutor.init ⟨singleCatalog integerTable threeIndex, pages⟩
      (optimizeSeqScanToIndexScan (singleCatalog integerTable threeIndex) [1]
        (.seqScan 1 (some (aEquals (.null .integer))))).plan =
      some (⟨integerTable, some (aEquals (.null .integer)).evaluate, .indexScan []⟩, pages) := rfl
  have hsucceed' := updatesSucceed_of_room hstate (.refl _) hinit'
    (.indexScan List.nodup_nil (List.nil_subset _)) atMost_setEight
    fun rid hrid => absurd hrid List.not_mem_nil
  refine ⟨_, _, db₁, ⟨singleCatalog integerTable threeIndex, pages⟩, hstate, rfl, hsucceed,
    hsucceed', hnext, rfl, ?_⟩
  rintro ⟨⟨chain₁, chain₂, hrep₁, hrep₂, hsame⟩, -⟩
  obtain rfl := happlied.heap.unique hrep₁
  obtain rfl := hstate.heap.unique hrep₂
  have hbytes := hsame ⟨0, 0⟩
  rw [happlied.tupleAt, bytesAfter, hzero.matchingRids, if_pos List.mem_cons_self, newAt,
    hzero.matching rfl] at hbytes
  exact absurd hbytes (by decide)

end OneBase
