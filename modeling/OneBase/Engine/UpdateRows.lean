import OneBase.Engine.DeleteRows

/-!
# Updates over the two scans (`update_executor.cpp`)

An update writes the new tuple of a row where the old one was, so that the rows stay in their
order and the child does not come back to a row. It changes one page for each row, and no other
table has that page.

- `DbInv.updateRow`: one row of an update keeps the invariant of the database.
- `Updating.loop`: the loop ends, and updates the rows that match.
- `updateNext_rows`: a statement puts the new rows in the places of the old ones, whichever
  child it has.
-/

namespace OneBase

open Cpp PageStore UpdateExecutor

variable {toid : Nat} {table : TableInfo} {predicate : Option Expression}
  {updateExprs : List Expression} {oids : List Nat}

/-! ## Rows have bytes -/

theorem serialize_ne_nil {v : Value} {bytes : List UInt8} (h : v.serialize = some bytes) :
    bytes ≠ [] := by
  have hfour : ∀ n, bytesOf n 4 ≠ [] := fun n => List.cons_ne_nil _ _
  cases v with
  | boolean b =>
    obtain rfl := Option.some.inj h
    exact List.cons_ne_nil _ _
  | integer i =>
    obtain rfl := Option.some.inj h
    exact hfour _
  | float bits =>
    obtain rfl := Option.some.inj h
    exact hfour _
  | varchar s =>
    obtain rfl := Option.some.inj h
    exact List.append_ne_nil_of_left_ne_nil (hfour _) _
  | null type =>
    cases type with
    | invalid => cases h
    | boolean =>
      obtain rfl := Option.some.inj h
      exact List.cons_ne_nil _ _
    | integer =>
      obtain rfl := Option.some.inj h
      exact hfour _
    | float =>
      obtain rfl := Option.some.inj h
      exact hfour _
    | varchar =>
      obtain rfl := Option.some.inj h
      exact hfour _

/-- A row of a table with a column has bytes. -/
theorem serializeAll_ne_nil {columns : List Column} {values : List Value}
    (hrow : Row columns values) (hne : columns ≠ []) {bytes : List UInt8}
    (h : Tuple.serializeAll values = some bytes) : bytes ≠ [] := by
  cases hrow with
  | nil => exact absurd rfl hne
  | @cons c v columns values hv hrest =>
    rw [Tuple.serializeAll] at h
    split at h
    · rename_i first rest hfirst _
      obtain rfl := Option.some.inj h
      exact List.append_ne_nil_of_left_ne_nil (serialize_ne_nil hfirst) _
    · cases h

theorem RowOf.data_ne_nil {tuple : Tuple} (h : RowOf table tuple)
    (hne : table.schema.given ≠ []) : tuple.data ≠ [] := by
  obtain ⟨values, hrow, htuple⟩ := h
  obtain ⟨data, hdata, rfl⟩ := Option.map_eq_some_iff.mp htuple
  exact serializeAll_ne_nil hrow hne hdata

/-- A table with a live tuple has a column. -/
theorem DbInv.given_ne_nil {db : Database} {chains : Nat → HeapChain} (hinv : DbInv db chains)
    (htable : db.catalog.getTable toid = some table) {rid : RID} {bytes : List UInt8}
    (hlive : (chains toid).tupleAt rid = some bytes) : table.schema.given ≠ [] := by
  intro hnil
  obtain ⟨values, hrow, hbytes⟩ := hinv.rows htable hlive
  rw [hnil] at hrow
  obtain rfl := List.forall₂_nil_left_iff.mp hrow
  obtain ⟨-, -, -, hne⟩ := HeapChain.tupleAt_eq_some hlive
  exact hne (Option.some.inj hbytes).symm

/-! ## One row -/

/-- A new row of the table whose bytes fit in the free space of the page of the old one. -/
theorem fits_of_rowOf {db : Database} {chains : Nat → HeapChain} (hinv : DbInv db chains)
    (htable : db.catalog.getTable toid = some table) (hne : table.schema.given ≠ []) {rid : RID}
    {new : Tuple} (hrow : RowOf table new)
    (hroom : new.data.length ≤ (db.pages.pages rid.pageId).getFreeSpaceRemaining) :
    UpdateExecutor.Fits table db rid new where
  nonempty := hrow.data_ne_nil hne
  room := hroom
  readBack := by
    intro ioid index attr hindex hname hpoint hattr
    obtain ⟨attr', hattr', htype⟩ := hinv.catalog.point htable hindex hname hpoint
    obtain rfl : attr = attr' := List.singleton_injective (hattr.symm.trans hattr')
    obtain ⟨values, hvalues, htuple⟩ := hrow
    obtain ⟨data, hdata, rfl⟩ := Option.map_eq_some_iff.mp htuple
    obtain ⟨key, hvalue, -, hread⟩ := IsRow.key (hinv.fixed htable) hvalues hdata htype rid
    have hkey : Tuple.getValue { data, values } table.schema attr = some (.integer key) := by
      simp [Tuple.getValue, hvalue]
    rw [hread, hkey]
    rfl

/-- **One row of an update.** -/
theorem DbInv.updateRow {db : Database} {chains : Nat → HeapChain} (hinv : DbInv db chains)
    (htable : db.catalog.getTable toid = some table)
    (hlists : ListsIndexes db.catalog table.name oids) {rid : RID} {bytes : List UInt8}
    (hlive : (chains toid).tupleAt rid = some bytes) {old new : Tuple}
    (htuple : ScanExecutor.rebuild table.schema rid bytes = some old)
    (hnew : newTuple updateExprs table.schema old = some new) (hrowOf : RowOf table new)
    (hroom : new.data.length ≤ (db.pages.pages rid.pageId).getFreeSpaceRemaining)
    {updateCount : Int32} {result : Bool × Database × Int32}
    (hrow : row table updateExprs oids db old rid updateCount = some result) :
    ∃ db', result = (true, db', updateCount + 1) ∧
      DbInv db' (Function.update chains toid ((chains toid).setAt rid new.data)) ∧
      db'.catalog.tables = db.catalog.tables ∧
      ∀ pageId, (db'.pages.pages pageId).getFreeSpaceRemaining +
          (if rid.pageId = pageId then new.data.length else 0) =
        (db.pages.pages pageId).getFreeSpaceRemaining := by
  have hfits := fits_of_rowOf hinv htable (hinv.given_ne_nil htable hlive) hrowOf hroom
  have hfree := row_free (hinv.heap htable) hlive hnew hrow hroom
  obtain ⟨db', rfl, hreplaced, -⟩ :=
    row_replaced (hinv.tableOk htable) hlists hlive htuple hnew hrow hfits
  obtain ⟨catalog, success, pages, hloop, hupdate, hresult⟩ := row_cases hnew hrow
  obtain ⟨page, hupdate', hrep⟩ := (hinv.heap htable).updateTuple hlive hroom
  obtain ⟨-, hpages⟩ := Prod.mk.inj (hupdate.symm.trans hupdate')
  subst hpages
  obtain ⟨-, hresult⟩ := Prod.mk.inj hresult
  obtain rfl := (Prod.mk.inj hresult).1
  have hlooped := looped updateIndex_eq hinv.catalog hlists hloop
  have hmem : rid.pageId ∈ (chains toid).map Prod.fst := by
    obtain ⟨slots, hslots, -⟩ := HeapChain.tupleAt_eq_some hlive
    exact List.mem_map.mpr ⟨_, hslots, rfl⟩
  refine ⟨_, rfl, ?_, hlooped.tables, hfree⟩
  refine hinv.replace htable hlooped.ok hlooped.tables ⟨hinv.store.next_nonneg, hinv.store.unpinned⟩
    hrep (Int.le_refl _) (fun q _ hq => ?_) (fun e he => ?_) (fun {r b} hb => ?_)
    hreplaced.ok.agrees hlooped.others
  · obtain ⟨e, he, hid⟩ := List.mem_map.mp hmem
    exact Function.update_of_ne (fun h => hq e he (hid.trans h.symm)) _ _
  · have hid : e.1 ∈ (chains toid).map Prod.fst := by
      rw [← HeapChain.ids_setAt (chains toid) rid new.data]
      exact List.mem_map.mpr ⟨e, he, rfl⟩
    obtain ⟨e', he', heq⟩ := List.mem_map.mp hid
    exact .inl ⟨e', he', heq⟩
  · rw [hreplaced.tupleAt] at hb
    split at hb
    · obtain rfl := Option.some.inj hb
      obtain ⟨values, hvalues, hnewValues⟩ := hrowOf
      obtain ⟨data, hdata, rfl⟩ := Option.map_eq_some_iff.mp hnewValues
      exact ⟨values, hvalues, hdata⟩
    · exact hinv.rows htable hb

/-! ## The loop -/

/-- The bytes that the new tuples of these RIDs take on the page. -/
def spaceOn (table : TableInfo) (predicate : Option Expression) (updateExprs : List Expression)
    (chain : HeapChain) (pageId : PageId) (rids : List RID) : Nat :=
  (rids.map fun rid =>
    if rid.pageId = pageId then
      ((newAt table predicate updateExprs chain rid).map fun new => new.data.length).getD 0
    else 0).sum

/-- What the update of the rows at `done` leaves, while the child has still to visit `todo`. -/
structure Updating (toid : Nat) (table : TableInfo) (predicate : Option Expression)
    (updateExprs : List Expression) (oids : List Nat) (db₀ : Database)
    (chains₀ : Nat → HeapChain) (done todo : List RID) (scan : ScanExecutor) (db : Database)
    (chains : Nat → HeapChain) : Prop where
  inv : DbInv db chains
  progress : Progress toid table predicate updateExprs oids db₀.catalog (chains₀ toid) done todo
    scan db (chains toid)
  tables : db.catalog.tables = db₀.catalog.tables
  others : ∀ oid, oid ≠ toid → chains oid = chains₀ oid
  liveRids : (chains toid).liveRids = (chains₀ toid).liveRids
  room : ∀ pageId, spaceOn table predicate updateExprs (chains₀ toid) pageId
      (matchingRids table predicate (chains₀ toid) todo) ≤
    (db.pages.pages pageId).getFreeSpaceRemaining

/-- The new tuples of the rows that match are rows of the table. -/
def MakesRows (table : TableInfo) (predicate : Option Expression) (updateExprs : List Expression)
    (chain : HeapChain) : Prop :=
  ∀ {rid old new}, matching table predicate chain rid = some old →
    newTuple updateExprs table.schema old = some new → RowOf table new

/-- **One row of the loop.** -/
theorem Updating.row {db₀ db : Database} {chains₀ chains : Nat → HeapChain}
    {done todo : List RID} {scan : ScanExecutor}
    (h : Updating toid table predicate updateExprs oids db₀ chains₀ done todo scan db chains)
    {rid : RID} {skipped todo' : List RID} (hsplit : todo = skipped ++ rid :: todo')
    {old new : Tuple} (hold : matching table predicate (chains₀ toid) rid = some old)
    (hnew : newTuple updateExprs table.schema old = some new) (hrowOf : RowOf table new)
    (hcons : matchingRids table predicate (chains₀ toid) todo =
      rid :: matchingRids table predicate (chains₀ toid) todo') {cursor : Cursor}
    (hpending : Pending (chains toid) cursor todo')
    {updateCount : Int32} {result : Bool × Database × Int32}
    (hrow : UpdateExecutor.row table updateExprs oids db old rid updateCount = some result) :
    ∃ db' chains', result = (true, db', updateCount + 1) ∧
      Updating toid table predicate updateExprs oids db₀ chains₀ (done ++ [rid]) todo'
        { scan with cursor } db' chains' := by
  have hrid : rid ∈ todo := by simp [hsplit]
  obtain ⟨bytes, hlive, -, htuple⟩ := h.progress.rebuild_of_matching hrid hold
  have hne := hrowOf.data_ne_nil (h.inv.given_ne_nil h.progress.found hlive)
  have hnewAt : newAt table predicate updateExprs (chains₀ toid) rid = some new := by
    rw [newAt, hold, Option.bind_some, hnew]
  -- the row takes its part of what was kept for all
  have hspace : ∀ pageId, (if rid.pageId = pageId then new.data.length else 0) +
      spaceOn table predicate updateExprs (chains₀ toid) pageId
        (matchingRids table predicate (chains₀ toid) todo') ≤
        (db.pages.pages pageId).getFreeSpaceRemaining := by
    intro pageId
    have hroom := h.room pageId
    rw [hcons, spaceOn, List.map_cons, List.sum_cons, hnewAt] at hroom
    exact hroom
  have hroom : new.data.length ≤ (db.pages.pages rid.pageId).getFreeSpaceRemaining := by
    have hself := hspace rid.pageId
    rw [if_pos rfl] at hself
    exact Nat.le_trans (Nat.le_add_right _ _) hself
  obtain ⟨chain', -, hprogress⟩ := h.progress.row hsplit hold hnew hrow
    (replaces_of_room h.progress.heap hlive hne hroom) hpending
  obtain ⟨db', rfl, hinv, htables, hfree⟩ := h.inv.updateRow h.progress.found h.progress.lists hlive
    htuple hnew hrowOf hroom hrow
  -- the two lemmas speak of the same heap
  have htable : db'.catalog.getTable toid = some table := hprogress.found
  have hsame := (hinv.heap htable).unique hprogress.heap
  rw [Function.update_self] at hsame
  subst hsame
  refine ⟨db', _, rfl, hinv, ?_, htables.trans h.tables, fun oid hoid => ?_, ?_, fun pageId => ?_⟩
  · rw [Function.update_self]
    exact hprogress
  · rw [Function.update_of_ne hoid, h.others oid hoid]
  · rw [Function.update_self, HeapChain.liveRids_setAt h.progress.heap.nodup hlive hne, h.liveRids]
  · have hbefore := hspace pageId
    rw [← hfree pageId] at hbefore
    omega

/-- **The loop of an update** ends, and updates the rows at the RIDs of `todo` that match. The
induction is on the fuel. -/
theorem Updating.loop {db₀ : Database} {chains₀ : Nat → HeapChain}
    (heval : Evaluates table predicate updateExprs (chains₀ toid))
    (hmakes : MakesRows table predicate updateExprs (chains₀ toid)) {fuel : Nat} :
    ∀ {db : Database} {chains : Nat → HeapChain} {done todo : List RID} {scan : ScanExecutor}
      {updateCount : Int32},
      Updating toid table predicate updateExprs oids db₀ chains₀ done todo scan db chains →
      todo.length < fuel →
      ∃ db' chains' todo' scan',
        UpdateExecutor.loop table updateExprs oids fuel scan db updateCount =
          some (updateCount +
            Int32.ofNat (matchingRids table predicate (chains₀ toid) todo).length, db') ∧
        Updating toid table predicate updateExprs oids db₀ chains₀
          (done ++ matchingRids table predicate (chains₀ toid) todo) todo' scan' db' chains' := by
  induction fuel with
  | zero => exact fun _ hfuel => absurd hfuel (Nat.not_lt_zero _)
  | succ fuel ih =>
    intro db chains done todo scan updateCount h hfuel
    obtain ⟨r, cursor, hnext⟩ := h.progress.exists_next heval
    rw [UpdateExecutor.loop, hnext]
    obtain ⟨-, ⟨rfl, hnone⟩ | ⟨old, rid, skipped, todo', rfl, hsplit, hpending, hold, hcons⟩⟩ :=
      h.progress.next hnext
    · rw [hnone, List.append_nil, List.length_nil, count_zero]
      exact ⟨db, chains, todo, scan, rfl, h⟩
    · obtain ⟨new, hnew⟩ := heval.new hold
      obtain ⟨result, hrow⟩ := h.progress.exists_row (by simp [hsplit]) hold hnew heval.columns
        updateCount
      obtain ⟨db₁, chains₁, rfl, h₁⟩ := h.row hsplit hold hnew (hmakes hold hnew) hcons
        hpending hrow
      have hfuel' : todo'.length < fuel := by
        rw [hsplit, List.length_append, List.length_cons] at hfuel
        omega
      obtain ⟨db', chains', todo'', scan', hloop, h'⟩ :=
        @ih _ _ _ _ _ (updateCount + 1) h₁ hfuel'
      rw [List.append_assoc, List.singleton_append, ← hcons] at h'
      refine ⟨db', chains', todo'', scan', ?_, h'⟩
      simp only [hrow, hloop, hcons, List.length_cons, count_succ]

/-! ## The rows -/

/-- What an update makes of a row. -/
def updatedRow (table : TableInfo) (predicate : Option Expression)
    (updateExprs : List Expression) (tuple : Tuple) : Tuple :=
  if isSelected table predicate tuple = true then
    (newTuple updateExprs table.schema tuple).getD tuple
  else tuple

/-- A row of fixed columns is read back from its bytes. -/
theorem rebuild_of_rowOf (hfixed : FixedColumns table.schema.given) {tuple : Tuple}
    (hrow : RowOf table tuple) (rid : RID) :
    ScanExecutor.rebuild table.schema rid tuple.data = some tuple := by
  obtain ⟨values, hvalues, htuple⟩ := hrow
  obtain ⟨data, hdata, rfl⟩ := Option.map_eq_some_iff.mp htuple
  have hlen : values.length = table.schema.getColumnCount :=
    hvalues.length_eq.symm.trans table.schema.getColumnCount_eq.symm
  have hread : (Tuple.ofBytes rid data).getValues table.schema = some values := by
    refine Tuple.getValuesFrom_eq hlen fun j hj => ?_
    rw [Nat.zero_add]
    exact getValue_ofBytes hfixed hvalues hdata rid hj
  simp [ScanExecutor.rebuild, hread, Tuple.ofValues, hdata]

/-- **The rows after an update**: each is where it was, and the ones that match are new. -/
theorem selected_of_updated {chain chain' : HeapChain} {rids done : List RID} {rows : List Tuple}
    (hfixed : FixedColumns table.schema.given)
    (heval : Evaluates table predicate updateExprs chain)
    (hmakes : MakesRows table predicate updateExprs chain)
    (hrows : selected table.schema none chain rids = some rows)
    (hdone : ∀ rid ∈ rids, rid ∈ done ↔ (matching table predicate chain rid).isSome = true)
    (hafter : ∀ rid, chain'.tupleAt rid = bytesAfter table predicate updateExprs chain done rid) :
    selected table.schema none chain' rids =
        some (rows.map (updatedRow table predicate updateExprs)) ∧
      (matchingRids table predicate chain rids).length =
        (rows.filter (isSelected table predicate)).length := by
  induction rids generalizing rows with
  | nil =>
    obtain rfl := Option.some.inj hrows
    exact ⟨rfl, rfl⟩
  | cons rid rids ih =>
    rw [selected] at hrows
    split at hrows
    · cases hrows
    · rename_i tuple hread
      obtain ⟨rest, hrest, rfl⟩ := Option.map_eq_some_iff.mp hrows
      obtain ⟨hleft, hcount⟩ := ih hrest fun r hr => hdone r (List.mem_cons_of_mem _ hr)
      have hiff := hdone rid List.mem_cons_self
      by_cases hselects : ScanExecutor.selects predicate tuple table.schema = some true
      · have hmatching : matching table predicate chain rid = some tuple := by
          simp only [matching, hread, hselects, if_true]
        obtain ⟨new, hnew⟩ := heval.new hmatching
        have hread' : ScanExecutor.rebuild table.schema rid ((chain'.tupleAt rid).getD []) =
            some new := by
          rw [hafter, bytesAfter, if_pos (hiff.mpr (by rw [hmatching]; rfl)), newAt, hmatching,
            Option.bind_some, hnew, Option.map_some, Option.getD_some]
          exact rebuild_of_rowOf hfixed (hmakes hmatching hnew) rid
        have hupdated : updatedRow table predicate updateExprs tuple = new := by
          simp [updatedRow, isSelected, hselects, hnew]
        rw [selected, hread', matchingRids, List.filter_cons_of_pos (by rw [hmatching]; rfl),
          List.filter_cons_of_pos (by simpa [isSelected] using hselects), List.length_cons,
          List.length_cons, ← hcount, List.map_cons, hupdated]
        simp only [ScanExecutor.selects, hleft, Option.map_some]
        exact ⟨trivial, rfl⟩
      · have hmatching : matching table predicate chain rid = none := by
          simp only [matching, hread, hselects, if_false]
        have hnotin : rid ∉ done := fun hin => by
          have := hiff.mp hin
          rw [hmatching] at this
          cases this
        have hupdated : updatedRow table predicate updateExprs tuple = tuple := by
          simp [updatedRow, isSelected, hselects]
        rw [selected, hafter, bytesAfter, if_neg hnotin, hread, matchingRids,
          List.filter_cons_of_neg (by rw [hmatching]; exact Bool.false_ne_true),
          List.filter_cons_of_neg (by simpa [isSelected] using hselects), List.map_cons, hupdated]
        simp only [ScanExecutor.selects, hleft, Option.map_some]
        exact ⟨trivial, hcount⟩

/-- The rows of the tables after an update. -/
theorem Updating.hasRows {db₀ db : Database} {chains₀ chains : Nat → HeapChain}
    {rows : Nat → List Tuple} (hinv : DbInv db₀ chains₀) (hrows : HasRows db₀ rows)
    (htable : db₀.catalog.getTable toid = some table)
    (heval : Evaluates table predicate updateExprs (chains₀ toid))
    (hmakes : MakesRows table predicate updateExprs (chains₀ toid)) {done todo : List RID}
    {scan : ScanExecutor}
    (hdone : done.Perm (matchingRids table predicate (chains₀ toid) (chains₀ toid).liveRids))
    (h : Updating toid table predicate updateExprs oids db₀ chains₀ done todo scan db chains) :
    HasRows db (Function.update rows toid
        ((rows toid).map (updatedRow table predicate updateExprs))) ∧
      done.length = ((rows toid).filter (isSelected table predicate)).length := by
  have hmem : ∀ rid ∈ (chains₀ toid).liveRids,
      rid ∈ done ↔ (matching table predicate (chains₀ toid) rid).isSome = true := by
    intro rid hrid
    rw [hdone.mem_iff, matchingRids, List.mem_filter]
    exact ⟨fun h => h.2, fun h => ⟨hrid, h⟩⟩
  obtain ⟨hleft, hcount⟩ := selected_of_updated (hinv.fixed htable) heval hmakes
    (hrows.selected_eq hinv htable) hmem h.progress.tupleAt
  refine ⟨fun oid t ht => ⟨chains oid, h.inv.heap ht, ?_⟩, hdone.length_eq.trans hcount⟩
  have ht₀ : db₀.catalog.getTable oid = some t := by
    rw [Catalog.getTable, ← h.tables]
    exact ht
  by_cases heq : oid = toid
  · subst heq
    rw [htable] at ht₀
    obtain rfl := Option.some.inj ht₀
    rw [Function.update_self, h.liveRids]
    exact hleft
  · rw [Function.update_of_ne heq, h.others oid heq]
    exact hrows.selected_eq hinv ht₀

/-! ## The statement -/

/-- Each page has room for the new tuples of its rows that match. -/
def PagesHaveRoom (table : TableInfo) (predicate : Option Expression)
    (updateExprs : List Expression) (chain : HeapChain) (s : PageStore TablePage) : Prop :=
  ∀ pageId, spaceOn table predicate updateExprs chain pageId
      (matchingRids table predicate chain chain.liveRids) ≤
    (s.pages pageId).getFreeSpaceRemaining

/-- The predicate and the update expressions do not throw on the rows of the table, and make rows
of the table, with one expression for each column. -/
structure UpdatesRows (table : TableInfo) (predicate : Option Expression)
    (updateExprs : List Expression) (rows : Multiset Tuple) : Prop where
  selects : ∀ tuple ∈ rows, ∃ b, ScanExecutor.selects predicate tuple table.schema = some b
  new : ∀ tuple ∈ rows, isSelected table predicate tuple = true →
    ∃ new, newTuple updateExprs table.schema tuple = some new ∧ RowOf table new
  columns : updateExprs.length = table.schema.getColumnCount

/-- No row is read from a RID that is not live. -/
theorem tupleAt_of_matching (hne : table.schema.given ≠ []) {chain : HeapChain} {rid : RID}
    {tuple : Tuple}
    (h : matching table predicate chain rid = some tuple) :
    ∃ bytes, chain.tupleAt rid = some bytes := by
  cases hlive : chain.tupleAt rid with
  | some bytes => exact ⟨bytes, rfl⟩
  | none =>
    obtain ⟨column, columns, hcolumns⟩ := List.exists_cons_of_ne_nil hne
    have hcount : table.schema.getColumnCount = columns.length + 1 := by
      rw [Schema.getColumnCount_eq, hcolumns, List.length_cons]
    have hfirst : (Tuple.ofBytes rid []).getValue table.schema 0 = none := by
      cases hcolumn : table.schema.getColumn 0 <;>
        simp [Tuple.getValue, Tuple.ofBytes, hcolumn, deserializeFrom_nil]
    have hread : ScanExecutor.rebuild table.schema rid [] = none := by
      simp [ScanExecutor.rebuild, Tuple.getValues, hcount, Tuple.getValuesFrom, hfirst]
    rw [matching, hlive, Option.getD_none, hread] at h
    cases h

/-- What is asked of the rows holds of what is stored. -/
theorem UpdatesRows.evaluates {db : Database} {chains : Nat → HeapChain}
    {rows : Nat → List Tuple}
    (h : UpdatesRows table predicate updateExprs (rows toid : Multiset Tuple))
    (hinv : DbInv db chains) (hrows : HasRows db rows)
    (htable : db.catalog.getTable toid = some table) :
    Evaluates table predicate updateExprs (chains toid) ∧
      MakesRows table predicate updateExprs (chains toid) := by
  have hnew : ∀ {rid row}, matching table predicate (chains toid) rid = some row →
      ∃ new, newTuple updateExprs table.schema row = some new ∧ RowOf table new := by
    intro rid row hmatching
    by_cases hnil : table.schema.given = []
    · -- a table without columns: the new tuple is the empty one
      have hexprs : updateExprs = [] := by
        rw [← List.length_eq_zero_iff, h.columns, Schema.getColumnCount_eq, hnil]
        rfl
      exact ⟨{ data := [], values := [] }, by rw [hexprs]; rfl, [], hnil ▸ .nil, rfl⟩
    · obtain ⟨bytes, hlive⟩ := tupleAt_of_matching hnil hmatching
      obtain ⟨tuple, htuple, hread⟩ := hrows.mem_of_tupleAt hinv htable hlive
      rw [matching, hlive, Option.getD_some, hread] at hmatching
      obtain ⟨hselects, heq⟩ := Option.ite_none_right_eq_some.mp hmatching
      obtain rfl := Option.some.inj heq
      exact h.new tuple htuple (by simpa [isSelected] using hselects)
  refine ⟨⟨fun {rid bytes} hlive => ?_, fun hmatching => ?_, h.columns⟩, fun hmatching hnew' => ?_⟩
  · obtain ⟨tuple, htuple, hread⟩ := hrows.mem_of_tupleAt hinv htable hlive
    obtain ⟨b, hb⟩ := h.selects tuple htuple
    exact ⟨tuple, b, hread, hb⟩
  · obtain ⟨new, hnew, -⟩ := hnew hmatching
    exact ⟨new, hnew⟩
  · obtain ⟨new, hsome, hrow⟩ := hnew hmatching
    rw [hsome] at hnew'
    exact Option.some.inj hnew' ▸ hrow

/-- The statement, in a database that keeps its invariant. -/
theorem DbInv.updateNext {db : Database} {chains : Nat → HeapChain} (hinv : DbInv db chains)
    {rows : Nat → List Tuple} (hrows : HasRows db rows)
    (htable : db.catalog.getTable toid = some table)
    (hoids : oids.Perm (db.catalog.getTableIndexes table.name)) {plan : ScanPlan}
    (hchild : ChildOf db.catalog toid table predicate plan)
    (hupdates : UpdatesRows table predicate updateExprs (rows toid : Multiset Tuple))
    (hroom : PagesHaveRoom table predicate updateExprs (chains toid) db.pages) {fuel : Nat}
    (hfuel : (chains toid).liveRids.length < fuel) :
    ∃ db' chains', UpdateExecutor.next updateExprs fuel plan db toid oids =
        some (Int32.ofNat ((rows toid).filter (isSelected table predicate)).length, db') ∧
      DbInv db' chains' ∧ db'.catalog.tables = db.catalog.tables ∧
      HasRows db' (Function.update rows toid
        ((rows toid).map (updatedRow table predicate updateExprs))) := by
  have hstate := hinv.scanState htable
  obtain ⟨heval, hmakes⟩ := hupdates.evaluates hinv hrows htable
  obtain ⟨cursor, rids, hinit, hpending, hlen, hrids⟩ := hchild.start hstate
  have hstart : Updating toid table predicate updateExprs oids db chains [] rids
      ⟨table, predicate, cursor⟩ db chains := by
    refine ⟨hinv, .start hstate hoids hpending, rfl, fun _ _ => rfl, rfl, fun pageId => ?_⟩
    rw [spaceOn, (hrids.map _).sum_eq]
    exact hroom pageId
  obtain ⟨db', chains', todo, scan, hloop, hupdated⟩ :=
    @Updating.loop _ _ _ _ _ _ _ heval hmakes fuel _ _ _ _ _ 0 hstart
      (Nat.lt_of_le_of_lt hlen hfuel)
  obtain ⟨hleft, hcount⟩ := hupdated.hasRows hinv hrows htable heval hmakes hrids
  refine ⟨db', chains', ?_, hupdated.inv, hupdated.tables, hleft⟩
  simp only [UpdateExecutor.next, hinit, htable]
  rw [hloop, Int32.zero_add, ← hcount]

/-- **An update is exact.** In every database that statements lead to, if the pages have room for
the new tuples, the statement ends, returns the number of the rows that satisfy the predicate, and
leaves the new rows in the places of the old ones, with all other rows; whether its child is the
sequential scan or what the optimizer makes of it. -/
theorem updateNext_rows {s₀ : PageStore TablePage} (hok : s₀.StoreOk) {db : Database}
    (hrun : DbRun OidLeft s₀ db) {rows : Nat → List Tuple} (hrows : HasRows db rows)
    (htable : db.catalog.getTable toid = some table)
    (hoids : oids.Perm (db.catalog.getTableIndexes table.name)) {predicate : Option Expr}
    (hnull : NoNullKey predicate)
    (hupdates : UpdatesRows table (predicate.map Expr.evaluate) updateExprs
      (rows toid : Multiset Tuple))
    {order : List Nat} (horder : order.Perm (db.catalog.getTableIndexes table.name))
    {node : ScanNode} (hnode : node = .seqScan toid predicate ∨
      node = optimizeSeqScanToIndexScan db.catalog order (.seqScan toid predicate))
    (hroom : ∀ chain, HeapRep table.table db.pages chain →
      PagesHaveRoom table (predicate.map Expr.evaluate) updateExprs chain db.pages) :
    ∃ n, ∀ fuel ≥ n, ∃ db' chains',
      UpdateExecutor.next updateExprs fuel node.plan db toid oids =
        some (Int32.ofNat
          ((rows toid).filter (isSelected table (predicate.map Expr.evaluate))).length, db') ∧
      DbInv db' chains' ∧
      HasRows db' (Function.update rows toid
        ((rows toid).map (updatedRow table (predicate.map Expr.evaluate) updateExprs))) := by
  obtain ⟨chains, hinv⟩ := hrun.inv hok
  have hchild := childOf_node (hinv.scanState htable) hnull horder hnode
  refine ⟨(chains toid).liveRids.length + 1, fun fuel hfuel => ?_⟩
  obtain ⟨db', chains', hnext, hinv', -, hleft⟩ :=
    hinv.updateNext hrows htable hoids hchild hupdates (hroom _ (hinv.heap htable)) hfuel
  exact ⟨db', chains', hnext, hinv', hleft⟩

/-- Each new tuple has at most `n` bytes. -/
theorem spaceOn_le {chain : HeapChain} {pageId : PageId} {rids : List RID} {n : Nat}
    (h : ∀ {rid new}, newAt table predicate updateExprs chain rid = some new →
      new.data.length ≤ n) :
    spaceOn table predicate updateExprs chain pageId rids ≤
      (rids.filter fun rid => rid.pageId = pageId).length * n := by
  induction rids with
  | nil => exact Nat.zero_le _
  | cons rid rids ih =>
    rw [spaceOn, List.map_cons, List.sum_cons]
    by_cases hid : rid.pageId = pageId
    · rw [if_pos hid, List.filter_cons_of_pos (by simpa using hid), List.length_cons, Nat.succ_mul,
        Nat.add_comm]
      refine Nat.add_le_add ih ?_
      cases hnew : newAt table predicate updateExprs chain rid with
      | none => exact Nat.zero_le _
      | some new => exact h hnew
    · rw [if_neg hid, List.filter_cons_of_neg (by simpa using hid), Nat.zero_add]
      exact ih

/-! ### Three rows -/

/-- There is room for `UPDATE t SET a = 8`. -/
theorem RowsInserted.pagesHaveRoom {db : Database} (h : RowsInserted db)
    (predicate : Option Expression) (chain : HeapChain)
    (hchain : HeapRep oneColumnTable.table db.pages chain) :
    PagesHaveRoom oneColumnTable predicate setEight chain db.pages := by
  intro pageId
  obtain rfl := h.heap.unique hchain
  have hlive : HeapChain.liveRids [(0, insertedRows.map Tuple.data)] =
      [⟨0, 0⟩, ⟨0, 1⟩, ⟨0, 2⟩] := rfl
  refine Nat.le_trans (@spaceOn_le _ _ _ _ _ _ 4 fun {rid new} hnewAt => ?_) ?_
  · obtain ⟨row, -, hsome⟩ := Option.bind_eq_some_iff.mp hnewAt
    obtain rfl : eightTuple = new := Option.some.inj hsome
    exact Nat.le_refl 4
  · by_cases hid : pageId = 0
    · subst hid
      refine Nat.le_trans (Nat.mul_le_mul_right 4 (?_ : _ ≤ 3)) h.room
      exact Nat.le_trans (List.length_filter_le _ _) (hlive ▸ List.length_filter_le _ _)
    · -- nothing is on another page
      rw [List.filter_eq_nil_iff.mpr, List.length_nil, Nat.zero_mul]
      · exact Nat.zero_le _
      · intro rid hrid hpage
        have hmem := (List.mem_filter.mp hrid).1
        rw [hlive] at hmem
        have hzero : rid.pageId = 0 := by
          simp only [List.mem_cons, List.not_mem_nil, or_false] at hmem
          rcases hmem with rfl | rfl | rfl <;> rfl
        exact hid ((of_decide_eq_true hpage).symm.trans hzero)

/-- Its predicate `a = v` has a type if the constant is an INTEGER. -/
theorem isPredicate_aEquals (key : Int32) :
    IsPredicate (rowTypes oneColumnTable.schema) (some (aEquals (.integer key))) := by
  intro expr hexpr
  obtain rfl := Option.some.inj hexpr
  rfl

/-- `UPDATE t SET a = 8 WHERE a = v` makes rows of the table. -/
theorem updatesRows_setEight (key : Int32) {rows : Multiset Tuple}
    (hrows : ∀ tuple ∈ rows, Row oneColumnTable.schema.given tuple.values) :
    UpdatesRows oneColumnTable (some (aEquals (.integer key)).evaluate) setEight rows where
  selects := fun tuple htuple => (isPredicate_aEquals key).selects (hrows tuple htuple)
  new := fun _ _ _ => ⟨eightTuple, rfl, [.integer 8], .cons ⟨rfl, rfl⟩ .nil, by decide⟩
  columns := rfl

/-- `UPDATE t SET a = 8 WHERE a = 7` on the rows `(7)`, `(9)` and `(7)`, with the index. -/
theorem updateNext_rows_seven : ∃ (db db' : Database) (rows : Nat → List Tuple) (fuel : Nat),
    DbRun OidLeft emptyStore db ∧ HasRows db rows ∧ rows 1 = insertedRows ∧
      UpdateExecutor.next setEight fuel (optimizeSeqScanToIndexScan db.catalog
          (db.catalog.getTableIndexes "t") (.seqScan 1 (some (aEquals (.integer 7))))).plan db 1
          (db.catalog.getTableIndexes "t") = some (2, db') ∧
      HasRows db' (Function.update rows 1 [eightTuple, nineTuple, eightTuple]) := by
  obtain ⟨_, db, _, -, -, -, -, hrun, hinserted⟩ := exists_rowsInserted
  obtain ⟨chains, hinv⟩ := hrun.inv emptyStore_ok
  obtain ⟨rows, hrows⟩ := hinv.exists_hasRows
  obtain ⟨n, hnext⟩ := updateNext_rows emptyStore_ok hrun hrows hinserted.table (.refl _)
    (noNullKey_of_typed (isPredicate_aEquals 7))
    (updatesRows_setEight 7 (row_of_isTable (hrows _ _ hinserted.table))) (.refl _) (.inr rfl)
    (hinserted.pagesHaveRoom _)
  obtain ⟨db', -, hupdate, -, hleft⟩ := hnext n (Nat.le_refl n)
  have hthree := hinserted.rows hrows
  rw [hthree] at hupdate hleft
  exact ⟨db, db', rows, n, hrun, hrows, hthree, hupdate, hleft⟩

end OneBase
