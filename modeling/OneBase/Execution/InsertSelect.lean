import OneBase.Execution.IndexAgreement
import OneBase.Storage.HeapInsert
import OneBase.Storage.HeapUpdate

/-!
# Inserting from a scan of the same table (`insert_executor.cpp`, `seq_scan_executor.cpp`)

The scan moves its iterator on before it returns a row, and the insertion puts a copy of the row
into the table before it asks for the next one. So a copy is visited by the scan if it stands
behind the iterator.

- `CopyOk.insert`: what a copy adds to the RIDs that the scan has still to visit.
- `CopyOk.insert_selected`: a copy that does harm is one more row to select.
- `CopyOk.loop_le`: a loop that ends inserts at least what it has still to select.
- `insertFromScan_once_iff`: when every selected row is inserted once.
-/

namespace OneBase

open PageStore

/-- A scan as the child of an insertion. -/
def scanChild : Child ScanExecutor where
  next := fun scan s =>
    match scan.next s with
    | none => none
    | some (r, cursor, s) => some (r, { scan with cursor }, s)

/-- Model of `Init` and `Next` of an insertion into a table with a `SeqScan` of that table as its
child. The rows that were inserted are returned for the count. -/
def InsertExecutor.fromScan (fuel : Nat) (db : Database) (tableOid : Nat)
    (predicate : Option Expression) (indexes : List Nat) : Option (List Tuple × Database) :=
  match ScanExecutor.init db (.seqScan tableOid predicate) with
  | none => none
  | some (scan, pages) => InsertExecutor.next scanChild fuel scan { db with pages } tableOid indexes

/-- The rows at the RIDs that satisfy the predicate. -/
def selected (schema : Schema) (predicate : Option Expression) (chain : HeapChain) :
    List RID → Option (List Tuple)
  | [] => some []
  | rid :: rids =>
    match ScanExecutor.rebuild schema rid ((chain.tupleAt rid).getD []) with
    | none => none
    | some tuple =>
      match ScanExecutor.selects predicate tuple schema with
      | none => none
      | some true => (selected schema predicate chain rids).map (tuple :: ·)
      | some false => selected schema predicate chain rids

/-- The bytes of the live tuples. -/
def HeapChain.tuples (chain : HeapChain) : List (List UInt8) :=
  chain.liveRids.filterMap chain.tupleAt

/-- The tuples are where they were, and what was added are the rows, each once. A row without
bytes is not live. -/
structure Grown (chain : HeapChain) (rows : List Tuple) (chain' : HeapChain) : Prop where
  kept : ∀ r bytes, chain.tupleAt r = some bytes → chain'.tupleAt r = some bytes
  added : chain'.tuples.Perm (chain.tuples ++ (rows.map Tuple.data).filter (· ≠ []))

/-- **Each row is inserted once**: the statement ends, and the rows that it inserted and counted
are `rows`. -/
def InsertsOnce (db : Database) (toid : Nat) (table : TableInfo) (predicate : Option Expression)
    (oids : List Nat) (chain : HeapChain) (rows : List Tuple) : Prop :=
  ∃ fuel db' chain', InsertExecutor.fromScan fuel db toid predicate oids = some (rows, db') ∧
    HeapRep table.table db'.pages chain' ∧ Grown chain rows chain'

/-- The scan will come to the copy: the iterator is not at the end, the copy is live, and no page
in front of the iterator has room for it. -/
def Visited (db : Database) (chain : HeapChain) (tuple : Tuple) (iter : RID) : Prop :=
  iter ≠ TableHeap.endRid ∧ tuple.data ≠ [] ∧ NoRoomBefore db.pages tuple.data chain iter.pageId

/-- The copy, read back, does not satisfy the predicate. -/
def Unselected (table : TableInfo) (predicate : Option Expression) (tuple : Tuple) : Prop :=
  ∃ copy, ScanExecutor.rebuild table.schema {} tuple.data = some copy ∧
    ScanExecutor.selects predicate copy table.schema = some false

/-- **A copy does no harm**: it fits on a page, and the scan does not come to it, or not select
it. -/
def CopySafe (table : TableInfo) (predicate : Option Expression) (db : Database) (tuple : Tuple)
    (cursor : Cursor) : Prop :=
  tuple.data.length ≤ 4076 ∧ ∀ chain iter, HeapRep table.table db.pages chain →
    cursor = .seqScan iter → Visited db chain tuple iter → Unselected table predicate tuple

/-- There are page ids for `n` insertions. -/
def HasIds (s : PageStore TablePage) (n : Nat) : Prop := s.nextPageId + n ≤ 2 ^ 31

/-- `P` holds for each row that the loop inserts: for the database before it, the row, and the
cursor of the scan. -/
def EachCopy (table : TableInfo) (oids : List Nat) (P : Database → Tuple → Cursor → Prop) :
    Nat → ScanExecutor → Database → Prop
  | 0, _, _ => True
  | n + 1, scan, db =>
    ∀ tuple rid cursor pages, scan.next db.pages = some (some (tuple, rid), cursor, pages) →
      P { db with pages } tuple cursor ∧
      ∀ rid' pages' catalog, table.table.insertTuple pages tuple.data = some (some rid', pages') →
        maintain .insertEntry table.schema tuple rid' oids db.catalog = some catalog →
        EachCopy table oids P n { scan with cursor } ⟨catalog, pages'⟩

/-! ## What is selected -/

section Selected

variable {schema : Schema} {predicate : Option Expression} {chain chain' : HeapChain}

/-- The first row that is selected, and the others. -/
theorem selected_eq (rids : List RID) :
    selected schema predicate chain rids =
      match select schema predicate chain rids with
      | none => none
      | some (none, _) => some []
      | some (some (tuple, _), rids') =>
        (selected schema predicate chain rids').map (tuple :: ·) := by
  induction rids with
  | nil => rfl
  | cons rid rids ih =>
    rw [selected, select]
    cases ScanExecutor.rebuild schema rid ((chain.tupleAt rid).getD []) with
    | none => rfl
    | some tuple =>
      dsimp only
      cases ScanExecutor.selects predicate tuple schema with
      | none => rfl
      | some b =>
        cases b with
        | true => rfl
        | false => exact ih

theorem selected_congr {rids : List RID}
    (hsame : ∀ r ∈ rids, chain'.tupleAt r = chain.tupleAt r) :
    selected schema predicate chain' rids = selected schema predicate chain rids := by
  induction rids with
  | nil => rfl
  | cons rid rids ih =>
    rw [selected, selected, hsame rid List.mem_cons_self,
      ih fun r hr => hsame r (List.mem_cons_of_mem _ hr)]

theorem selected_append (rids rids' : List RID) :
    selected schema predicate chain (rids ++ rids') =
      (selected schema predicate chain rids).bind fun rows =>
        (selected schema predicate chain rids').map (rows ++ ·) := by
  induction rids with
  | nil => simp [selected]
  | cons rid rids ih =>
    rw [List.cons_append, selected, selected, ih]
    cases ScanExecutor.rebuild schema rid ((chain.tupleAt rid).getD []) with
    | none => rfl
    | some tuple =>
      dsimp only
      cases ScanExecutor.selects predicate tuple schema with
      | none => rfl
      | some b =>
        cases b with
        | true =>
          cases selected schema predicate chain rids with
          | none => rfl
          | some rows => cases selected schema predicate chain rids' <;> rfl
        | false => rfl

variable {table : TableInfo} {tuple : Tuple} {rid : RID} {before behind : List RID}

/-- A copy that is not selected changes nothing. -/
theorem selected_copy (hun : Unselected table predicate tuple)
    (hcopy : chain.tupleAt rid = some tuple.data) :
    selected table.schema predicate chain (before ++ rid :: behind) =
      selected table.schema predicate chain (before ++ behind) := by
  obtain ⟨copy, hread, hsel⟩ := hun
  rw [rebuild_rid _ {} rid] at hread
  have hskip : selected table.schema predicate chain (rid :: behind) =
      selected table.schema predicate chain behind := by
    simp only [selected, hcopy, Option.getD_some, hread, hsel]
  rw [selected_append, selected_append, hskip]

/-- A copy that is selected is one row more. -/
theorem selected_copy_length (hsel : ¬ Unselected table predicate tuple)
    (hcopy : chain.tupleAt rid = some tuple.data) {rows : List Tuple}
    (hrows : selected table.schema predicate chain (before ++ rid :: behind) = some rows) :
    ∃ rows', selected table.schema predicate chain (before ++ behind) = some rows' ∧
      rows.length = rows'.length + 1 := by
  rw [selected_append] at hrows
  obtain ⟨front, hfront, hrows⟩ := Option.bind_eq_some_iff.mp hrows
  obtain ⟨back, hback, rfl⟩ := Option.map_eq_some_iff.mp hrows
  -- the copy is the first of the rows behind
  obtain ⟨copy, back', hback', rfl⟩ : ∃ copy back',
      selected table.schema predicate chain behind = some back' ∧ back = copy :: back' := by
    simp only [selected, hcopy, Option.getD_some] at hback
    split at hback
    · cases hback
    · rename_i copy hread
      split at hback
      · cases hback
      · obtain ⟨back', hback', rfl⟩ := Option.map_eq_some_iff.mp hback
        exact ⟨copy, back', hback', rfl⟩
      · rename_i hfalse
        rw [rebuild_rid _ rid {}] at hread
        exact absurd ⟨copy, hread, hfalse⟩ hsel
  refine ⟨front ++ back', ?_, by simp only [List.length_append, List.length_cons]; omega⟩
  rw [selected_append, hfront, Option.bind_some, hback', Option.map_some]

end Selected

/-! ## One copy -/

namespace Grown

variable {chain chain' chain'' : HeapChain} {rows rows' : List Tuple}

theorem refl (chain : HeapChain) : Grown chain [] chain where
  kept := fun _ _ h => h
  added := by simp

theorem trans (h : Grown chain rows chain') (h' : Grown chain' rows' chain'') :
    Grown chain (rows ++ rows') chain'' where
  kept := fun r bytes hr => h'.kept r bytes (h.kept r bytes hr)
  added := by
    rw [List.map_append, List.filter_append, ← List.append_assoc]
    exact h'.added.trans (h.added.append_right _)

/-- An insertion. -/
theorem of_adds {t : TableHeap} {s : PageStore TablePage} {tuple : Tuple} {rid : RID}
    (hrep : HeapRep t s chain) (hadds : Adds tuple.data s.nextPageId chain rid chain') :
    Grown chain [tuple] chain' := by
  have htupleAt := hadds.tupleAt hrep.nodup hrep.fresh_notin
  have hold : ∀ r bytes, chain.tupleAt r = some bytes → chain'.tupleAt r = some bytes := by
    intro r bytes hr
    have hne : r ≠ rid := by
      rintro rfl
      exact (hadds.used hrep.nodup hrep.fresh_notin).1 (HeapChain.tupleAt_used hr)
    rw [htupleAt, if_neg hne, hr]
  refine ⟨hold, ?_⟩
  obtain ⟨e, rest, rfl⟩ := List.exists_cons_of_ne_nil hrep.nonempty
  obtain ⟨before, behind, hsplit, hlive⟩ := hadds.liveRids rfl
  have hperm : chain'.liveRids.Perm (HeapChain.liveRids (e :: rest) ++ newRids tuple.data rid) := by
    rw [hlive, HeapChain.liveRids_cons, hsplit, List.append_assoc]
    refine List.Perm.append_left _ ?_
    rw [List.append_assoc]
    exact List.Perm.append_left _ List.perm_append_comm
  have hnew : (newRids tuple.data rid).filterMap chain'.tupleAt =
      ([tuple].map Tuple.data).filter (· ≠ []) := by
    by_cases hempty : tuple.data = []
    · simp [newRids, hempty]
    · simp [newRids, hempty, htupleAt, Option.filter]
  rw [HeapChain.tuples, HeapChain.tuples, ← hnew]
  refine (hperm.filterMap _).trans (List.Perm.of_eq ?_)
  rw [List.filterMap_append]
  congr 1
  refine List.filterMap_congr fun r hr => ?_
  obtain ⟨bytes, hbytes⟩ := Option.ne_none_iff_exists'.mp
    ((HeapChain.mem_liveRids hrep.nodup r).mp hr)
  rw [hold r bytes hbytes, hbytes]

end Grown

/-- The indexes of a table take an entry for each tuple that has its columns. -/
theorem maintain_insertEntry_some {c : Catalog} (hok : CatalogOk c) {toid : Nat} {table : TableInfo}
    (htable : c.getTable toid = some table) {oids : List Nat}
    (hlists : ListsIndexes c table.name oids) {tuple : Tuple} (rid : RID)
    (hvalues : ∀ i < table.schema.getColumnCount, ∃ v, tuple.getValue table.schema i = some v) :
    ∃ c', maintain .insertEntry table.schema tuple rid oids c = some c' := by
  rw [maintain_eq]
  refine forIndexes_some hlists.nodup fun oid hoid => ?_
  obtain ⟨index, hindex, hname⟩ := (hlists.mem oid).mp hoid
  refine ⟨index, ?_⟩
  by_cases hpoint : index.supportsPointLookup = true
  · obtain ⟨attr, hattr, htype⟩ := hok.point htable hindex hname hpoint
    obtain ⟨v, hv⟩ := hvalues attr (Schema.lt_getColumnCount htype)
    have hlookup : index.getLookupAttr.bind (tuple.getValue table.schema) = some v := by
      simp [IndexInfo.getLookupAttr, hattr, hv]
    simp only [maintainOne, hpoint, if_true, hlookup, hindex, true_and]
    split
    · rename_i hint
      cases v with
      | integer key => exact ⟨_, rfl⟩
      | null => cases hint.1
      | _ => cases hint.2
    · exact ⟨_, rfl⟩
  · exact ⟨index, hindex, by simp [maintainOne, hpoint]⟩

theorem HasIds.next {s : PageStore TablePage} {n : Nat} (h : HasIds s (n + 1)) :
    s.nextPageId < 2 ^ 31 := by
  have hlt : ∀ a : Int, a + (n + 1 : Nat) ≤ 2 ^ 31 → a < 2 ^ 31 := by
    intro a ha
    omega
  exact hlt _ h

theorem HasIds.mono {s : PageStore TablePage} {m n : Nat} (h : HasIds s n) (hle : m ≤ n) :
    HasIds s m := by
  have hle' : ∀ a : Int, a + n ≤ 2 ^ 31 → a + m ≤ 2 ^ 31 := by
    intro a ha
    omega
  exact hle' _ h

theorem HasIds.insert {s s' : PageStore TablePage} {n : Nat} (h : HasIds s (n + 1))
    (hnext : s'.nextPageId ≤ s.nextPageId + 1) : HasIds s' n := by
  have hle : ∀ a b : Int, b ≤ a + 1 → a + (n + 1 : Nat) ≤ 2 ^ 31 → b + n ≤ 2 ^ 31 := by
    intro a b hb ha
    omega
  exact hle _ _ hnext h

/-- The loop only adds rows. -/
theorem InsertExecutor.loop_prefix {σ : Type} {child : Child σ} {table : TableInfo}
    {oids : List Nat} {fuel : Nat} : ∀ {state : σ} {db db' : Database} {inserted rows : List Tuple},
      loop child table oids fuel state db inserted = some (rows, db') → inserted <+: rows := by
  induction fuel with
  | zero =>
    intro state db db' inserted rows h
    cases h
  | succ fuel ih =>
    intro state db db' inserted rows h
    rw [loop] at h
    split at h
    · cases h
    · obtain ⟨rfl, -⟩ := Prod.mk.inj (Option.some.inj h)
      exact List.prefix_rfl
    · split at h
      · split at h
        · cases h
        · exact (List.prefix_append _ _).trans (ih h)
      · cases h

/-- One turn of a loop whose child is a scan. -/
theorem InsertExecutor.loop_scanChild {source target : TableInfo} {predicate : Option Expression}
    {oids : List Nat} {db : Database} {chain : HeapChain} {front rids : List RID}
    (hrep : HeapRep source.table db.pages chain) (hsplit : chain.liveRids = front ++ rids)
    (fuel : Nat) (inserted : List Tuple) :
    loop scanChild target oids (fuel + 1)
        ⟨source, predicate, .seqScan (rids.head?.getD TableHeap.endRid)⟩ db inserted =
      match select source.schema predicate chain rids with
      | none => none
      | some (none, _) => some (inserted, db)
      | some (some (tuple, _), rids') =>
        match target.table.insertTuple db.pages tuple.data with
        | some (some copy, pages) =>
          match maintain .insertEntry target.schema tuple copy oids db.catalog with
          | none => none
          | some catalog =>
            loop scanChild target oids fuel
              ⟨source, predicate, .seqScan (rids'.head?.getD TableHeap.endRid)⟩ ⟨catalog, pages⟩
              (inserted ++ [tuple])
        | _ => none := by
  have hlen := hrep.length_liveRids_lt
  rw [hsplit, List.length_append] at hlen
  have hfuel : rids.length < TableHeap.tupleFuel db.pages := by omega
  have hnext : scanChild.next
        ⟨source, predicate, .seqScan (rids.head?.getD TableHeap.endRid)⟩ db.pages =
      (select source.schema predicate chain rids).map fun r =>
        (r.1, ⟨source, predicate, .seqScan (r.2.head?.getD TableHeap.endRid)⟩, db.pages) := by
    dsimp only [scanChild, ScanExecutor.next]
    rw [ScanExecutor.nextSeq_eq hrep hsplit hfuel]
    cases select source.schema predicate chain rids with
    | none => rfl
    | some r => rfl
  rw [loop, hnext]
  cases select source.schema predicate chain rids with
  | none => rfl
  | some r =>
    obtain ⟨row, rids'⟩ := r
    cases row with
    | none => rfl
    | some row => rfl

/-- The loop of an insertion whose scan has still to visit `rids`. -/
structure CopyOk (toid : Nat) (table : TableInfo) (predicate : Option Expression)
    (oids : List Nat) (scan : ScanExecutor) (db : Database) (chain : HeapChain)
    (rids : List RID) : Prop where
  catalog : CatalogOk db.catalog
  getTable : db.catalog.getTable toid = some table
  lists : ListsIndexes db.catalog table.name oids
  heap : HeapRep table.table db.pages chain
  store : db.pages.StoreOk
  scan_eq : scan = ⟨table, predicate, .seqScan (rids.head?.getD TableHeap.endRid)⟩
  split : ∃ front, chain.liveRids = front ++ rids

namespace CopyOk

variable {toid : Nat} {table : TableInfo} {predicate : Option Expression} {oids : List Nat}
  {scan : ScanExecutor} {db : Database} {chain : HeapChain} {rids rids' : List RID} {tuple : Tuple}
  {rid : RID}

theorem next (h : CopyOk toid table predicate oids scan db chain rids) :
    scan.next db.pages = (select table.schema predicate chain rids).map fun r =>
      (r.1, .seqScan (r.2.head?.getD TableHeap.endRid), db.pages) := by
  obtain ⟨front, hsplit⟩ := h.split
  have hlen := h.heap.length_liveRids_lt
  rw [hsplit, List.length_append] at hlen
  rw [h.scan_eq]
  exact ScanExecutor.nextSeq_eq h.heap hsplit (by omega)

/-- What holds for each copy holds for the next one. -/
theorem eachCopy_succ (h : CopyOk toid table predicate oids scan db chain rids)
    {P : Database → Tuple → Cursor → Prop} {n : Nat} :
    EachCopy table oids P (n + 1) scan db ↔ ∀ tuple rid rids',
      select table.schema predicate chain rids = some (some (tuple, rid), rids') →
      P db tuple (.seqScan (rids'.head?.getD TableHeap.endRid)) ∧
      ∀ copy pages catalog, table.table.insertTuple db.pages tuple.data = some (some copy, pages) →
        maintain .insertEntry table.schema tuple copy oids db.catalog = some catalog →
        EachCopy table oids P n ⟨table, predicate, .seqScan (rids'.head?.getD TableHeap.endRid)⟩
          ⟨catalog, pages⟩ := by
  obtain rfl := h.scan_eq
  constructor
  · intro hall tuple rid rids' hselect
    have hnext := h.next
    rw [hselect] at hnext
    exact hall tuple rid _ _ hnext
  · intro hall tuple rid cursor pages hnext
    rw [h.next] at hnext
    obtain ⟨⟨row, rids'⟩, hselect, hrow⟩ := Option.map_eq_some_iff.mp hnext
    obtain ⟨rfl, rfl, rfl⟩ : row = some (tuple, rid) ∧
        .seqScan (rids'.head?.getD TableHeap.endRid) = cursor ∧ db.pages = pages := by
      simpa using hrow
    exact hall tuple rid rids' hselect

/-- **One copy.** The scan will visit it or not, and what it has still to visit is else the same. -/
theorem insert (h : CopyOk toid table predicate oids scan db chain rids)
    (hselect : select table.schema predicate chain rids = some (some (tuple, rid), rids'))
    (hlen : tuple.data.length ≤ 4076) (hid : db.pages.nextPageId < 2 ^ 31) :
    ∃ copy pages catalog chain' rids'',
      table.table.insertTuple db.pages tuple.data = some (some copy, pages) ∧
      maintain .insertEntry table.schema tuple copy oids db.catalog = some catalog ∧
      CopyOk toid table predicate oids
        ⟨table, predicate, .seqScan (rids'.head?.getD TableHeap.endRid)⟩ ⟨catalog, pages⟩ chain'
        rids'' ∧
      pages.nextPageId ≤ db.pages.nextPageId + 1 ∧ Grown chain [tuple] chain' ∧
      ((¬ Visited db chain tuple (rids'.head?.getD TableHeap.endRid) ∧ rids'' = rids') ∨
        (Visited db chain tuple (rids'.head?.getD TableHeap.endRid) ∧
          chain'.tupleAt copy = some tuple.data ∧
          ∃ before behind, rids' = before ++ behind ∧ rids'' = before ++ copy :: behind)) := by
  obtain ⟨front, hsplit⟩ := h.split
  obtain ⟨copy, pages, chain', hins, hadds, hrep', hstore', hinserted⟩ :=
    h.heap.insertTuple h.store hid hlen
  obtain ⟨hend, -⟩ | ⟨t, r, skipped, hr, hrids, hread⟩ := select_split hselect
  · cases hend
  obtain ⟨rfl, rfl⟩ := Prod.mk.inj (Option.some.inj hr)
  have hvalues : ∀ i < table.schema.getColumnCount, ∃ v, tuple.getValue table.schema i = some v :=
    fun i hi => ScanExecutor.getValue_of_rebuild hread hi
  obtain ⟨catalog, hmaintain⟩ :=
    maintain_insertEntry_some h.catalog h.getTable h.lists copy hvalues
  have hkept := maintained mapOnly_insertEntry h.catalog h.lists hmaintain
  have hgrown := Grown.of_adds h.heap hadds
  have hlive : chain.liveRids = (front ++ skipped ++ [rid]) ++ rids' := by
    rw [hsplit, hrids]
    simp only [List.append_assoc, List.cons_append, List.nil_append]
  -- it is enough to say what is visited
  suffices hvisit : ∃ rids'', rids''.head?.getD TableHeap.endRid =
      rids'.head?.getD TableHeap.endRid ∧ (∃ front', chain'.liveRids = front' ++ rids'') ∧
      ((¬ Visited db chain tuple (rids'.head?.getD TableHeap.endRid) ∧ rids'' = rids') ∨
        (Visited db chain tuple (rids'.head?.getD TableHeap.endRid) ∧
          chain'.tupleAt copy = some tuple.data ∧
          ∃ before behind, rids' = before ++ behind ∧ rids'' = before ++ copy :: behind)) by
    obtain ⟨rids'', hhead, hsplit', hcases⟩ := hvisit
    refine ⟨copy, pages, catalog, chain', rids'', hins, hmaintain, ⟨hkept.ok, ?_, hkept.lists,
      hrep', hstore', by rw [hhead], hsplit'⟩, hinserted.next_succ, hgrown, hcases⟩
    rw [Catalog.getTable, hkept.tables]
    exact h.getTable
  cases rids' with
  | nil =>
    exact ⟨[], rfl, ⟨chain'.liveRids, (List.append_nil _).symm⟩, .inl ⟨fun hv => hv.1 rfl, rfl⟩⟩
  | cons iter back =>
    have hiter : iter ≠ TableHeap.endRid := by
      obtain ⟨bytes, hbytes⟩ := h.heap.mem_tupleAt hlive
      exact h.heap.ne_endRid hbytes
    obtain ⟨hroom, front', hlive'⟩ | ⟨hnone, between, behind, rfl, hlive'⟩ :=
      h.heap.liveRids_insert h.store hid hlen hins hadds hlive
    · exact ⟨_, rfl, ⟨front', hlive'⟩, .inl ⟨fun hv => hroom hv.2.2, rfl⟩⟩
    · by_cases hempty : tuple.data = []
      · rw [newRids, if_pos hempty, List.nil_append] at hlive'
        exact ⟨_, rfl, ⟨_, hlive'⟩, .inl ⟨fun hv => hv.2.1 hempty, rfl⟩⟩
      · rw [newRids, if_neg hempty] at hlive'
        refine ⟨iter :: (between ++ ([copy] ++ behind)), rfl, ⟨_, hlive'⟩,
          .inr ⟨⟨hiter, hempty, hnone⟩, ?_, iter :: between, behind, rfl, rfl⟩⟩
        rw [hadds.tupleAt h.heap.nodup h.heap.fresh_notin, if_pos rfl]
        simp [hempty]

/-- What a copy does to the rows that the scan has still to select. -/
theorem insert_selected (h : CopyOk toid table predicate oids scan db chain rids)
    (hselect : select table.schema predicate chain rids = some (some (tuple, rid), rids'))
    (hlen : tuple.data.length ≤ 4076) (hid : db.pages.nextPageId < 2 ^ 31) :
    ∃ copy pages catalog chain' rids'',
      table.table.insertTuple db.pages tuple.data = some (some copy, pages) ∧
      maintain .insertEntry table.schema tuple copy oids db.catalog = some catalog ∧
      CopyOk toid table predicate oids
        ⟨table, predicate, .seqScan (rids'.head?.getD TableHeap.endRid)⟩ ⟨catalog, pages⟩ chain'
        rids'' ∧
      pages.nextPageId ≤ db.pages.nextPageId + 1 ∧ Grown chain [tuple] chain' ∧
      (CopySafe table predicate db tuple (.seqScan (rids'.head?.getD TableHeap.endRid)) →
        selected table.schema predicate chain' rids'' =
          selected table.schema predicate chain rids') ∧
      (¬ CopySafe table predicate db tuple (.seqScan (rids'.head?.getD TableHeap.endRid)) →
        ∀ rows, selected table.schema predicate chain' rids'' = some rows →
          ∃ rows', selected table.schema predicate chain rids' = some rows' ∧
            rows.length = rows'.length + 1) := by
  obtain ⟨copy, pages, catalog, chain', rids'', hins, hmaintain, h', hnext, hgrown, hcases⟩ :=
    h.insert hselect hlen hid
  obtain ⟨front, hsplit⟩ := h.split
  obtain ⟨hend, -⟩ | ⟨t, r, skipped, -, hrids, -⟩ := select_split hselect
  · cases hend
  -- the rows that were there are read as before
  have hsame : selected table.schema predicate chain' rids' =
      selected table.schema predicate chain rids' := by
    refine selected_congr fun r hr => ?_
    have hlive : r ∈ chain.liveRids := by simp [hsplit, hrids, hr]
    obtain ⟨bytes, hbytes⟩ := Option.ne_none_iff_exists'.mp
      ((HeapChain.mem_liveRids h.heap.nodup r).mp hlive)
    rw [hbytes, hgrown.kept r bytes hbytes]
  refine ⟨copy, pages, catalog, chain', rids'', hins, hmaintain, h', hnext, hgrown, ?_, ?_⟩
  · intro hsafe
    obtain ⟨-, rfl⟩ | ⟨hvisited, hcopy, before, behind, rfl, rfl⟩ := hcases
    · exact hsame
    · rw [← hsame]
      exact selected_copy (hsafe.2 chain _ h.heap rfl hvisited) hcopy
  · intro hunsafe rows hrows
    rw [← hsame]
    obtain ⟨hnot, -⟩ | ⟨hvisited, hcopy, before, behind, rfl, rfl⟩ := hcases
    · refine absurd ⟨hlen, fun chain₀ iter hrep hiter hv => ?_⟩ hunsafe
      obtain rfl := h.heap.unique hrep
      obtain rfl := Cursor.seqScan.inj hiter
      exact absurd hv hnot
    · refine selected_copy_length (fun hun => hunsafe ⟨hlen, fun _ _ _ _ _ => hun⟩) hcopy hrows

/-! ## The loop -/

/-- One turn of the loop. -/
theorem loop_eq (h : CopyOk toid table predicate oids scan db chain rids) (fuel : Nat)
    (inserted : List Tuple) :
    InsertExecutor.loop scanChild table oids (fuel + 1) scan db inserted =
      match select table.schema predicate chain rids with
      | none => none
      | some (none, _) => some (inserted, db)
      | some (some (tuple, _), rids') =>
        match table.table.insertTuple db.pages tuple.data with
        | some (some copy, pages) =>
          match maintain .insertEntry table.schema tuple copy oids db.catalog with
          | none => none
          | some catalog =>
            InsertExecutor.loop scanChild table oids fuel
              ⟨table, predicate, .seqScan (rids'.head?.getD TableHeap.endRid)⟩ ⟨catalog, pages⟩
              (inserted ++ [tuple])
        | _ => none := by
  obtain ⟨front, hsplit⟩ := h.split
  rw [h.scan_eq]
  exact InsertExecutor.loop_scanChild h.heap hsplit fuel inserted

/-- **One turn of a loop that ends.** The scan has ended, or one more copy was inserted. -/
theorem turn (h : CopyOk toid table predicate oids scan db chain rids) {fuel : Nat}
    {inserted rows : List Tuple} {db' : Database}
    (hloop : InsertExecutor.loop scanChild table oids (fuel + 1) scan db inserted =
      some (rows, db')) :
    (select table.schema predicate chain rids = some (none, []) ∧ rows = inserted) ∨
      ∃ tuple rid rids', select table.schema predicate chain rids =
          some (some (tuple, rid), rids') ∧ tuple.data.length ≤ 4076 ∧
        inserted.length + 1 ≤ rows.length ∧
        ∀ copy pages catalog,
          table.table.insertTuple db.pages tuple.data = some (some copy, pages) →
          maintain .insertEntry table.schema tuple copy oids db.catalog = some catalog →
          InsertExecutor.loop scanChild table oids fuel
            ⟨table, predicate, .seqScan (rids'.head?.getD TableHeap.endRid)⟩ ⟨catalog, pages⟩
            (inserted ++ [tuple]) = some (rows, db') := by
  rw [h.loop_eq] at hloop
  split at hloop
  · cases hloop
  · rename_i rids' hselect
    obtain ⟨rfl, -⟩ := Prod.mk.inj (Option.some.inj hloop)
    obtain ⟨-, rfl⟩ | ⟨_, _, _, hr, -⟩ := select_split hselect
    · exact .inl ⟨hselect, rfl⟩
    · cases hr
  · rename_i tuple rid rids' hselect
    split at hloop
    · rename_i copy pages hins
      split at hloop
      · cases hloop
      · rename_i catalog hmaintain
        have hle := (InsertExecutor.loop_prefix hloop).length_le
        rw [List.length_append, List.length_singleton] at hle
        refine .inr ⟨tuple, rid, rids', hselect, h.heap.insertTuple_length_le hins, hle,
          fun copy' pages' catalog' hins' hmaintain' => ?_⟩
        obtain ⟨hcopy, rfl⟩ := Prod.mk.inj (Option.some.inj (hins.symm.trans hins'))
        obtain rfl := Option.some.inj hcopy
        obtain rfl := Option.some.inj (hmaintain.symm.trans hmaintain')
        exact hloop
    · cases hloop

/-- **What a loop that ends has inserted**: at least what it had still to select. -/
theorem loop_le {fuel : Nat} : ∀ {scan : ScanExecutor} {db db' : Database} {chain : HeapChain}
    {rids : List RID} {inserted rows : List Tuple} {n : Nat},
    CopyOk toid table predicate oids scan db chain rids → HasIds db.pages n →
    rows.length = inserted.length + n →
    InsertExecutor.loop scanChild table oids fuel scan db inserted = some (rows, db') →
    ∃ still, selected table.schema predicate chain rids = some still ∧ still.length ≤ n := by
  induction fuel with
  | zero =>
    intro scan db db' chain rids inserted rows n _ _ _ hloop
    cases hloop
  | succ fuel ih =>
    intro scan db db' chain rids inserted rows n h hids hlength hloop
    obtain ⟨hselect, rfl⟩ | ⟨tuple, rid, rids', hselect, hlen, hlt, hgo⟩ := h.turn hloop
    · refine ⟨[], ?_, Nat.zero_le _⟩
      rw [selected_eq, hselect]
    · obtain ⟨n, rfl⟩ : ∃ m, n = m + 1 := ⟨n - 1, by omega⟩
      obtain ⟨copy, pages, catalog, chain', rids'', hins, hmaintain, h', hnext, -, hsafe,
        hunsafe⟩ := h.insert_selected hselect hlen hids.next
      have hlength' : rows.length = (inserted ++ [tuple]).length + n := by
        rw [List.length_append, List.length_singleton]
        omega
      obtain ⟨still, hstill, hle⟩ :=
        ih h' (hids.insert hnext) hlength' (hgo copy pages catalog hins hmaintain)
      -- of the rows that are still to be selected one may be the copy
      obtain ⟨still', hstill', hle'⟩ : ∃ still',
          selected table.schema predicate chain rids' = some still' ∧
            still'.length ≤ still.length := by
        by_cases hs : CopySafe table predicate db tuple
            (.seqScan (rids'.head?.getD TableHeap.endRid))
        · exact ⟨still, (hsafe hs).symm.trans hstill, Nat.le_refl _⟩
        · obtain ⟨still', hstill', hlong⟩ := hunsafe hs still hstill
          exact ⟨still', hstill', by omega⟩
      refine ⟨tuple :: still', ?_, by rw [List.length_cons]; omega⟩
      rw [selected_eq, hselect]
      simp only [hstill', Option.map_some]

/-- **A loop whose copies do no harm** inserts what it had to select. -/
theorem loop_of_safe {still : List Tuple} : ∀ {scan : ScanExecutor} {db : Database}
    {chain : HeapChain} {rids : List RID} {inserted : List Tuple},
    CopyOk toid table predicate oids scan db chain rids →
    HasIds db.pages still.length → selected table.schema predicate chain rids = some still →
    (∀ n, EachCopy table oids (CopySafe table predicate) n scan db) →
    ∃ fuel db' chain', InsertExecutor.loop scanChild table oids fuel scan db inserted =
        some (inserted ++ still, db') ∧
      HeapRep table.table db'.pages chain' ∧ Grown chain still chain' := by
  induction still with
  | nil =>
    intro scan db chain rids inserted h _ hstill _
    refine ⟨1, db, chain, ?_, h.heap, Grown.refl chain⟩
    rw [selected_eq] at hstill
    split at hstill
    · cases hstill
    · rename_i hselect
      rw [h.loop_eq, List.append_nil, hselect]
    · obtain ⟨_, -, hcons⟩ := Option.map_eq_some_iff.mp hstill
      cases hcons
  | cons tuple still ih =>
    intro scan db chain rids inserted h hids hstill hall
    rw [selected_eq] at hstill
    split at hstill
    · cases hstill
    · cases hstill
    · rename_i tuple' rid rids' hselect
      obtain ⟨still', hstill', hcons⟩ := Option.map_eq_some_iff.mp hstill
      obtain ⟨rfl, rfl⟩ := List.cons.inj hcons
      have hsafe := (h.eachCopy_succ.mp (hall 1) _ _ _ hselect).1
      obtain ⟨copy, pages, catalog, chain', rids'', hins, hmaintain, h', hnext, hgrown, hsame,
        -⟩ := h.insert_selected hselect hsafe.1 hids.next
      have hall' : ∀ n, EachCopy table oids (CopySafe table predicate) n
          ⟨table, predicate, .seqScan (rids'.head?.getD TableHeap.endRid)⟩ ⟨catalog, pages⟩ :=
        fun n =>
          (h.eachCopy_succ.mp (hall (n + 1)) _ _ _ hselect).2 copy pages catalog hins hmaintain
      have hids' : HasIds pages still'.length := hids.insert hnext
      obtain ⟨fuel, db', chain'', hloop, hrep, hgrown'⟩ :=
        @ih _ _ _ _ (inserted ++ [tuple']) h' hids' ((hsame hsafe).trans hstill') hall'
      refine ⟨fuel + 1, db', chain'', ?_, hrep, hgrown.trans hgrown'⟩
      rw [h.loop_eq, hselect]
      simp only [hins, hmaintain]
      rw [hloop, List.append_assoc]
      rfl

/-- **A loop that inserted no more than it had to select** has inserted no copy that does harm. -/
theorem safe_of_loop {n : Nat} : ∀ {scan : ScanExecutor} {db db' : Database} {chain : HeapChain}
    {rids : List RID} {inserted rows still : List Tuple} {fuel : Nat},
    CopyOk toid table predicate oids scan db chain rids → HasIds db.pages still.length →
    selected table.schema predicate chain rids = some still →
    rows.length = inserted.length + still.length →
    InsertExecutor.loop scanChild table oids fuel scan db inserted = some (rows, db') →
    EachCopy table oids (CopySafe table predicate) n scan db := by
  induction n with
  | zero => exact fun _ _ _ _ _ => trivial
  | succ n ih =>
    intro scan db db' chain rids inserted rows still fuel h hids hstill hlength hloop
    refine h.eachCopy_succ.mpr fun tuple rid rids' hselect => ?_
    obtain ⟨fuel, rfl⟩ : ∃ m, fuel = m + 1 := by
      cases fuel with
      | zero => cases hloop
      | succ m => exact ⟨m, rfl⟩
    obtain ⟨hend, -⟩ | ⟨tuple', rid', rids₀, hselect', hlen, -, hgo⟩ := h.turn hloop
    · rw [hselect] at hend
      cases hend
    rw [hselect] at hselect'
    obtain ⟨hrow', rfl⟩ := Prod.mk.inj (Option.some.inj hselect')
    obtain ⟨rfl, rfl⟩ := Prod.mk.inj (Option.some.inj hrow')
    obtain ⟨still', hstill', rfl⟩ : ∃ still',
        selected table.schema predicate chain rids' = some still' ∧ tuple :: still' = still := by
      rw [selected_eq, hselect] at hstill
      exact Option.map_eq_some_iff.mp hstill
    obtain ⟨copy, pages, catalog, chain', rids'', hins, hmaintain, h', hnext', -, hsafe, hunsafe⟩ :=
      h.insert_selected hselect hlen hids.next
    have hrest := hgo copy pages catalog hins hmaintain
    have hids' : HasIds pages still'.length := hids.insert hnext'
    have hlength' : rows.length = (inserted ++ [tuple]).length + still'.length := by
      rw [List.length_cons] at hlength
      rw [List.length_append, List.length_singleton]
      omega
    have hs : CopySafe table predicate db tuple (.seqScan (rids'.head?.getD TableHeap.endRid)) := by
      by_contra hnot
      obtain ⟨after, hafter, hle⟩ := h'.loop_le hids' hlength' hrest
      obtain ⟨rows', hrows', hlong⟩ := hunsafe hnot after hafter
      obtain rfl := Option.some.inj (hstill'.symm.trans hrows')
      omega
    refine ⟨hs, fun copy' pages' catalog' hins' hmaintain' => ?_⟩
    obtain ⟨hcopy, rfl⟩ := Prod.mk.inj (Option.some.inj (hins.symm.trans hins'))
    obtain rfl := Option.some.inj hcopy
    obtain rfl := Option.some.inj (hmaintain.symm.trans hmaintain')
    exact ih h' hids' ((hsafe hs).trans hstill') hlength' hrest

end CopyOk

/-! ## The statement -/

section Statement

variable {db : Database} {toid : Nat} {table : TableInfo} {predicate : Option Expression}
  {oids : List Nat} {chain : HeapChain} {rows : List Tuple}

/-- The statement is the loop from the first live tuple on. -/
theorem InsertExecutor.fromScan_eq (htable : db.catalog.getTable toid = some table)
    (hheap : HeapRep table.table db.pages chain) (fuel : Nat) :
    InsertExecutor.fromScan fuel db toid predicate oids =
      InsertExecutor.loop scanChild table oids fuel
        ⟨table, predicate, .seqScan (chain.liveRids.head?.getD TableHeap.endRid)⟩ db [] := by
  simp only [InsertExecutor.fromScan, ScanExecutor.init, htable, hheap.begin, InsertExecutor.next]

/-- The loop starts with all live tuples to visit. -/
theorem CopyOk.start (hok : CatalogOk db.catalog) (htable : db.catalog.getTable toid = some table)
    (hheap : HeapRep table.table db.pages chain) (hstore : db.pages.StoreOk)
    (hperm : oids.Perm (db.catalog.getTableIndexes table.name)) :
    CopyOk toid table predicate oids
      ⟨table, predicate, .seqScan (chain.liveRids.head?.getD TableHeap.endRid)⟩ db chain
      chain.liveRids :=
  ⟨hok, htable, hok.listsIndexes hperm, hheap, hstore, rfl, [], (List.nil_append _).symm⟩

/-- **Each selected row is inserted once if and only if no copy does harm.** -/
theorem insertFromScan_once_iff (hok : CatalogOk db.catalog)
    (htable : db.catalog.getTable toid = some table)
    (hheap : HeapRep table.table db.pages chain) (hstore : db.pages.StoreOk)
    (hperm : oids.Perm (db.catalog.getTableIndexes table.name))
    (hrows : selected table.schema predicate chain chain.liveRids = some rows)
    (hids : HasIds db.pages rows.length) :
    InsertsOnce db toid table predicate oids chain rows ↔
      ∀ n, EachCopy table oids (CopySafe table predicate) n
        ⟨table, predicate, .seqScan (chain.liveRids.head?.getD TableHeap.endRid)⟩ db := by
  have h : CopyOk toid table predicate oids _ db chain chain.liveRids :=
    .start hok htable hheap hstore hperm
  constructor
  · rintro ⟨fuel, db', -, hloop, -⟩ n
    rw [InsertExecutor.fromScan_eq htable hheap] at hloop
    exact h.safe_of_loop hids hrows (Nat.zero_add _).symm hloop
  · intro hsafe
    obtain ⟨fuel, db', chain', hloop, hrep, hgrown⟩ := h.loop_of_safe hids hrows hsafe
    refine ⟨fuel, db', chain', ?_, hrep, hgrown⟩
    rw [InsertExecutor.fromScan_eq htable hheap]
    exact hloop

end Statement

/-! ### Copies of rows -/

theorem rebuild_seven (rid : RID) :
    ScanExecutor.rebuild oneColumnTable.schema rid seven = some sevenTuple := by
  rw [rebuild_rid _ rid {}]
  decide

/-- The bytes of the row `(8)`. -/
def eight : List UInt8 := [8, 0, 0, 0]

/-- The row `(8)`. -/
def eightTuple : Tuple := { data := eight, values := [.integer 8] }

theorem rebuild_eight (rid : RID) :
    ScanExecutor.rebuild oneColumnTable.schema rid eight = some eightTuple := by
  rw [rebuild_rid _ rid {}]
  decide

theorem oneColumn_ok : CatalogOk oneColumn.2.1 := by
  obtain ⟨chains, hinv⟩ := (@dbRun_oneColumn OidLeft Nat.one_ne_zero).inv emptyStore_ok
  exact hinv.catalog

/-- A row is selected if there is no predicate. -/
theorem select_row {schema : Schema} {chain : HeapChain} {rid : RID} {bytes : List UInt8}
    {tuple : Tuple} (hlive : chain.tupleAt rid = some bytes)
    (hrebuild : ScanExecutor.rebuild schema rid bytes = some tuple) (rids : List RID) :
    select schema none chain (rid :: rids) = some (some (tuple, rid), rids) := by
  rw [select, hlive, Option.getD_some, hrebuild]
  rfl

theorem copyOk_onePage {page : TablePage} {slots : List (List UInt8)}
    (hpage : TablePage.PageRep page invalidPageId slots) (predicate : Option Expression) :
    CopyOk 1 oneColumnTable predicate []
      ⟨oneColumnTable, predicate,
        .seqScan ((HeapChain.liveRids [(0, slots)]).head?.getD TableHeap.endRid)⟩
      ⟨oneColumn.2.1, onePage page⟩ [(0, slots)] (HeapChain.liveRids [(0, slots)]) :=
  .start oneColumn_ok rfl (heapRep_onePage hpage) (onePage_ok page) (.refl _)

/-- A scan that is at the end returns no row. -/
theorem eachCopy_endRid {table : TableInfo} {predicate : Option Expression} {oids : List Nat}
    {P : Database → Tuple → Cursor → Prop} {db : Database} (n : Nat) :
    EachCopy table oids P n ⟨table, predicate, .seqScan TableHeap.endRid⟩ db := by
  cases n with
  | zero => trivial
  | succ n =>
    intro tuple rid cursor pages hnext
    rw [ScanExecutor.next] at hnext
    cases hfuel : TableHeap.tupleFuel db.pages with
    | zero =>
      rw [hfuel] at hnext
      cases hnext
    | succ fuel =>
      rw [hfuel] at hnext
      cases hnext

/-- The clause `WHERE a = 7`. -/
def whereSeven : Option Expression := some fun tuple schema =>
  (tuple.getValue schema 0).bind fun v => v.compareEquals (.integer 7)

/-- `INSERT INTO t SELECT * FROM t WHERE a = 7`, where the last row is the one that is copied. -/
theorem insertFromScan_once_iff_last : ∃ page : TablePage,
    HeapRep oneColumnTable.table (onePage page) [(0, [eight, eight, seven])] ∧
    InsertsOnce ⟨oneColumn.2.1, onePage page⟩ 1 oneColumnTable whereSeven []
      [(0, [eight, eight, seven])] [sevenTuple] := by
  obtain ⟨page, hpage, -⟩ := exists_rowsPage
    (by decide : ([eight, eight, seven].map fun tuple => tuple.length + 4).sum ≤ 4080)
  have hheap := heapRep_onePage hpage
  -- the rows `(8)` are passed over
  have hselect : select oneColumnTable.schema whereSeven [(0, [eight, eight, seven])]
      [⟨0, 0⟩, ⟨0, 1⟩, ⟨0, 2⟩] = some (some (sevenTuple, ⟨0, 2⟩), []) := by
    have hlive : ∀ i < 2, (HeapChain.tupleAt [(0, [eight, eight, seven])] ⟨0, i⟩).getD [] =
        eight := by decide
    have hseven : (HeapChain.tupleAt [(0, [eight, eight, seven])] ⟨0, 2⟩).getD [] = seven := rfl
    have hpass : ScanExecutor.selects whereSeven eightTuple oneColumnTable.schema =
        some false := rfl
    have htake : ScanExecutor.selects whereSeven sevenTuple oneColumnTable.schema = some true := rfl
    simp only [select, hlive 0 (by decide), hlive 1 (by decide), hseven, rebuild_eight,
      rebuild_seven, hpass, htake]
  have hselected : selected oneColumnTable.schema whereSeven [(0, [eight, eight, seven])]
      (HeapChain.liveRids [(0, [eight, eight, seven])]) = some [sevenTuple] := by
    show selected _ _ _ [⟨0, 0⟩, ⟨0, 1⟩, ⟨0, 2⟩] = _
    rw [selected_eq, hselect]
    rfl
  have hids : HasIds (onePage page) 1 := by
    show (1 : Int) + 1 ≤ 2 ^ 31
    decide
  have h := copyOk_onePage hpage whereSeven
  refine ⟨page, hheap, (insertFromScan_once_iff oneColumn_ok rfl hheap (onePage_ok page)
    (.refl _) hselected hids).mpr fun n => ?_⟩
  cases n with
  | zero => trivial
  | succ n =>
    -- the scan is at the end before the copy is made
    refine h.eachCopy_succ.mpr fun tuple rid rids' hfirst => ?_
    obtain ⟨hrow, rfl⟩ := Prod.mk.inj (Option.some.inj (hselect.symm.trans hfirst))
    obtain ⟨rfl, -⟩ := Prod.mk.inj (Option.some.inj hrow)
    refine ⟨⟨by decide, fun chain iter _ hiter hvisited => ?_⟩, fun copy pages catalog _ _ => ?_⟩
    · exact absurd (Cursor.seqScan.inj hiter).symm hvisited.1
    · exact eachCopy_endRid n

/-- `INSERT INTO t SELECT * FROM t` on two rows: the first copy is put behind the second row. -/
theorem insertFromScan_two : ∃ page : TablePage,
    HeapRep oneColumnTable.table (onePage page) [(0, [seven, seven])] ∧
    selected oneColumnTable.schema none [(0, [seven, seven])]
      (HeapChain.liveRids [(0, [seven, seven])]) = some [sevenTuple, sevenTuple] ∧
    ¬ InsertsOnce ⟨oneColumn.2.1, onePage page⟩ 1 oneColumnTable none [] [(0, [seven, seven])]
      [sevenTuple, sevenTuple] := by
  obtain ⟨page, hpage, -⟩ := exists_rowsPage
    (by decide : ([seven, seven].map fun tuple => tuple.length + 4).sum ≤ 4080)
  have hheap := heapRep_onePage hpage
  have hselected : selected oneColumnTable.schema none [(0, [seven, seven])]
      (HeapChain.liveRids [(0, [seven, seven])]) = some [sevenTuple, sevenTuple] := by
    show selected _ _ _ [⟨0, 0⟩, ⟨0, 1⟩] = _
    rw [selected_eq, select_row rfl (rebuild_seven _)]
    dsimp only
    rw [selected_eq, select_row rfl (rebuild_seven _)]
    rfl
  have hids : HasIds (onePage page) [sevenTuple, sevenTuple].length := by
    show (1 : Int) + 2 ≤ 2 ^ 31
    decide
  refine ⟨page, hheap, hselected, ?_⟩
  rintro ⟨fuel, db', -, hloop, -⟩
  have h := copyOk_onePage hpage none
  rw [InsertExecutor.fromScan_eq rfl hheap] at hloop
  have hsafe : EachCopy oneColumnTable [] (CopySafe oneColumnTable none) 1 _ _ :=
    h.safe_of_loop hids hselected rfl hloop
  obtain ⟨⟨-, hcopy⟩, -⟩ := h.eachCopy_succ.mp hsafe _ _ _
    (select_row rfl (rebuild_seven _) [⟨0, 1⟩])
  have hvisited : Visited ⟨oneColumn.2.1, onePage page⟩ [(0, [seven, seven])] sevenTuple ⟨0, 1⟩ :=
    ⟨by decide, by decide, fun e he => absurd he (by simp)⟩
  obtain ⟨copy, -, hsel⟩ := hcopy _ _ hheap rfl hvisited
  cases hsel

end OneBase
