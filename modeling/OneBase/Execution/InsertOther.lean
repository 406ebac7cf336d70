import OneBase.Execution.ScanRows

/-!
# Inserting from a scan of another table (`insert_executor.cpp`, `seq_scan_executor.cpp`)

The insertion writes to pages that the scan does not read, so the rows that it inserts are
those that the scan would return by itself.

- `Insertable`: a row that `InsertTuple` and the indexes of the table take.
- `TwoHeaps.insert`: one row leaves the other table as it is.
- `InsertExecutor.exists_loop`, `FeedOk.of_loop`: the loop ends if and only if all rows that are
  selected can be inserted, and then it has inserted these.
-/

namespace OneBase

open PageStore

/-! ## Rows that can be inserted -/

/-- The key of an index on one INTEGER column can be read from the tuple. -/
def KeyReadable (schema : Schema) (tuple : Tuple) (index : IndexInfo) : Prop :=
  index.supportsPointLookup = true →
    ∃ v, index.getLookupAttr.bind (tuple.getValue schema) = some v

/-- So it is for all indexes of the list. -/
def KeysReadable (c : Catalog) (schema : Schema) (oids : List Nat) (tuple : Tuple) : Prop :=
  ∀ oid ∈ oids, ∃ index, c.getIndex oid = some index ∧ KeyReadable schema tuple index

/-- **A row that can be inserted**: it fits on a page, and the indexes can read their keys. -/
def Insertable (c : Catalog) (schema : Schema) (oids : List Nat) (tuple : Tuple) : Prop :=
  tuple.data.length ≤ 4076 ∧ KeysReadable c schema oids tuple

section Keys

variable {c c' : Catalog} {schema : Schema} {oids : List Nat} {tuple : Tuple} {rid : RID}

/-- One index takes the entry if it can read the key. -/
theorem maintainOne_insertEntry_iff {index : IndexInfo} :
    (∃ index', maintainOne .insertEntry schema tuple rid index = some index') ↔
      KeyReadable schema tuple index := by
  rw [maintainOne, KeyReadable]
  by_cases hpoint : index.supportsPointLookup = true
  · rw [if_pos hpoint]
    cases index.getLookupAttr.bind (tuple.getValue schema) with
    | none => simp [hpoint]
    | some v =>
      refine iff_of_true ?_ fun _ => ⟨v, rfl⟩
      dsimp only
      split
      · rename_i hint
        cases v with
        | integer key => exact ⟨_, rfl⟩
        | null => cases hint.1
        | _ => cases hint.2
      · exact ⟨_, rfl⟩
  · rw [if_neg hpoint]
    exact iff_of_true ⟨index, rfl⟩ fun h => absurd h hpoint

/-- **The indexes take the entries** if they can read the keys. -/
theorem maintain_insertEntry_iff (hok : CatalogOk c) (hnodup : oids.Nodup) :
    (∃ c', maintain .insertEntry schema tuple rid oids c = some c') ↔
      KeysReadable c schema oids tuple := by
  rw [maintain_eq]
  constructor
  · rintro ⟨c', hloop⟩ oid hoid
    obtain ⟨-, -, -, hlist⟩ := forIndexes_spec (maintainOne_eq mapOnly_insertEntry) hnodup hok hloop
    obtain ⟨index, index', hindex, hone, -⟩ := hlist oid hoid
    exact ⟨index, hindex, maintainOne_insertEntry_iff.mp ⟨index', hone⟩⟩
  · intro hread
    refine forIndexes_some hnodup fun oid hoid => ?_
    obtain ⟨index, hindex, hkey⟩ := hread oid hoid
    obtain ⟨index', hone⟩ := maintainOne_insertEntry_iff.mpr hkey
    exact ⟨index, index', hindex, hone⟩

/-- The entries of one row do not change what keys can be read. -/
theorem keysReadable_maintain (hok : CatalogOk c) (hnodup : oids.Nodup) {tuple' : Tuple}
    (h : maintain .insertEntry schema tuple' rid oids c = some c') :
    KeysReadable c' schema oids tuple ↔ KeysReadable c schema oids tuple := by
  rw [maintain_eq] at h
  obtain ⟨-, -, -, hlist⟩ := forIndexes_spec (maintainOne_eq mapOnly_insertEntry) hnodup hok h
  refine forall₂_congr fun oid hoid => ?_
  obtain ⟨index, index', hindex, hone, hindex'⟩ := hlist oid hoid
  obtain ⟨map, rfl⟩ := maintainOne_eq mapOnly_insertEntry hone
  rw [hindex, hindex']
  constructor
  · rintro ⟨i, hi, hkey⟩
    obtain rfl := Option.some.inj hi
    exact ⟨index, rfl, hkey⟩
  · rintro ⟨i, hi, hkey⟩
    obtain rfl := Option.some.inj hi
    exact ⟨_, rfl, hkey⟩

end Keys

/-! ## One row -/

/-- Two heaps in one store, without a page in common. -/
structure TwoHeaps (source target : TableHeap) (s : PageStore TablePage)
    (chain chain' : HeapChain) : Prop where
  heap : HeapRep source s chain
  heap' : HeapRep target s chain'
  store : s.StoreOk
  apart : ∀ e ∈ chain, ∀ e' ∈ chain', e.1 ≠ e'.1

/-- **One row** in one of the heaps leaves the other one as it is. -/
theorem TwoHeaps.insert {source target : TableHeap} {s : PageStore TablePage}
    {chain chain' : HeapChain} (h : TwoHeaps source target s chain chain') {tuple : Tuple}
    (hlen : tuple.data.length ≤ 4076) (hid : s.nextPageId < 2 ^ 31) :
    ∃ copy pages chain'', target.insertTuple s tuple.data = some (some copy, pages) ∧
      pages.nextPageId ≤ s.nextPageId + 1 ∧ Grown chain' [tuple] chain'' ∧
      TwoHeaps source target pages chain chain'' := by
  obtain ⟨copy, pages, chain'', hins, hadds, hrep, hstore, hinserted⟩ :=
    h.heap'.insertTuple h.store hid hlen
  have hlt : ∀ e ∈ chain, e.1 < s.nextPageId := fun e he => (h.heap.allocated e he).2
  -- the pages of the first heap are neither pages of the second one nor new ones
  have hsource : HeapRep source pages chain :=
    h.heap.congr (fun e he => hinserted.others e.1 (hlt e he)
      fun e' he' => (h.apart e he e' he').symm) hinserted.next_le
  have hapart : ∀ e ∈ chain, ∀ e' ∈ chain'', e.1 ≠ e'.1 := by
    intro e he e' he'
    rcases hinserted.ids e' he' with ⟨old, hold, hsame⟩ | ⟨hnew, -⟩
    · rw [← hsame]
      exact h.apart e he old hold
    · rw [hnew]
      exact Int.ne_of_lt (hlt e he)
  exact ⟨copy, pages, chain'', hins, hinserted.next_succ, .of_adds h.heap' hadds,
    hsource, hrep, hstore, hapart⟩

/-- **The loop over a scan of another table** whose rows can all be inserted ends, and it has
inserted them. The induction is on the rows. -/
theorem InsertExecutor.exists_loop {target : TableInfo} {oids : List Nat} {chain : HeapChain}
    {still : List Tuple} : ∀ {scan : ScanExecutor} {db : Database} {chain' : HeapChain}
    {rids : List RID} {inserted : List Tuple},
    TwoHeaps scan.tableInfo.table target.table db.pages chain chain' → CatalogOk db.catalog →
    ListsIndexes db.catalog target.name oids → Pending chain scan.cursor rids →
    HasIds db.pages still.length →
    selected scan.tableInfo.schema scan.predicate chain rids = some still →
    (∀ tuple ∈ still, Insertable db.catalog target.schema oids tuple) →
    ∃ fuel db' chain'', loop scanChild target oids fuel scan db inserted =
        some (inserted ++ still, db') ∧
      HeapRep target.table db'.pages chain'' ∧ Grown chain' still chain'' := by
  induction still with
  | nil =>
    intro scan db chain' rids inserted hheaps hok hlists hpending hids hstill hall
    obtain ⟨cursor, -, hscan⟩ := ScanExecutor.next_eq hheaps.heap hpending
    refine ⟨1, db, chain', ?_, hheaps.heap', .refl chain'⟩
    rw [selected_eq] at hstill
    split at hstill
    · cases hstill
    · rename_i rest hselect
      have hend : scanChild.next scan db.pages =
          some (none, { scan with cursor := cursor rest }, db.pages) := by
        simp only [scanChild, hscan, hselect, Option.map_some]
      rw [loop, hend, List.append_nil]
    · obtain ⟨rest, -, heq⟩ := Option.map_eq_some_iff.mp hstill
      cases heq
  | cons tuple still ih =>
    intro scan db chain' rids inserted hheaps hok hlists hpending hids hstill hall
    obtain ⟨cursor, hcursor, hscan⟩ := ScanExecutor.next_eq hheaps.heap hpending
    rw [selected_eq] at hstill
    split at hstill
    · cases hstill
    · cases hstill
    · rename_i first rid rids' hselect
      obtain ⟨rest, hrest, heq⟩ := Option.map_eq_some_iff.mp hstill
      obtain ⟨rfl, rfl⟩ := List.cons.inj heq
      obtain ⟨⟨hlen, hkeys⟩, hall'⟩ := List.forall_mem_cons.mp hall
      have hfirst : scanChild.next scan db.pages =
          some (some (first, rid), { scan with cursor := cursor rids' }, db.pages) := by
        simp only [scanChild, hscan, hselect, Option.map_some]
      obtain ⟨hend, -⟩ | ⟨t, r, skipped, -, hrids, -⟩ := select_split hselect
      · cases hend
      have hpending' : Pending chain (cursor rids') rids' := by
        refine hcursor (skipped ++ [r]) rids' ?_
        rw [hrids, List.append_assoc, List.singleton_append]
      obtain ⟨copy, pages, chain₁, hins, hnext, hgrown, hheaps'⟩ := hheaps.insert hlen hids.next
      obtain ⟨catalog, hmaintain⟩ : ∃ catalog, maintain .insertEntry target.schema first copy oids
          db.catalog = some catalog := (maintain_insertEntry_iff hok hlists.nodup).mpr hkeys
      have hkept := maintained mapOnly_insertEntry hok hlists hmaintain
      have hrest' : ∀ tuple ∈ rest, Insertable catalog target.schema oids tuple := by
        intro t ht
        obtain ⟨hfits, hread⟩ := hall' t ht
        exact ⟨hfits, (keysReadable_maintain hok hlists.nodup hmaintain).mpr hread⟩
      obtain ⟨fuel, db', chain₂, hloop, hrep, hgrown'⟩ :=
        @ih { scan with cursor := cursor rids' } ⟨catalog, pages⟩ chain₁ rids'
          (inserted ++ [first]) hheaps' hkept.ok hkept.lists hpending' (hids.insert hnext) hrest
          hrest'
      refine ⟨fuel + 1, db', chain₂, ?_, hrep, hgrown.trans hgrown'⟩
      rw [loop, hfirst]
      simp only [hins, hmaintain, hloop, List.append_assoc, List.singleton_append]

/-- The loop of an insertion into `target` whose scan of `source` has still to visit `rids`. -/
structure FeedOk (source target : TableInfo) (predicate : Option Expression) (oids : List Nat)
    (scan : ScanExecutor) (db : Database) (chain chain' : HeapChain) (rids : List RID) : Prop
    extends TwoHeaps source.table target.table db.pages chain chain' where
  catalog : CatalogOk db.catalog
  lists : ListsIndexes db.catalog target.name oids
  scan_eq : scan = ⟨source, predicate, .seqScan (rids.head?.getD TableHeap.endRid)⟩
  split : ∃ front, chain.liveRids = front ++ rids

namespace FeedOk

variable {source target : TableInfo} {predicate : Option Expression} {oids : List Nat}
  {scan : ScanExecutor} {db : Database} {chain chain' : HeapChain} {rids rids' : List RID}
  {tuple : Tuple} {rid : RID}

/-- **One row** leaves the table that is scanned as it is. -/
theorem insert (h : FeedOk source target predicate oids scan db chain chain' rids)
    (hselect : select source.schema predicate chain rids = some (some (tuple, rid), rids'))
    (hlen : tuple.data.length ≤ 4076) (hid : db.pages.nextPageId < 2 ^ 31) :
    ∃ copy pages chain'', target.table.insertTuple db.pages tuple.data =
        some (some copy, pages) ∧
      pages.nextPageId ≤ db.pages.nextPageId + 1 ∧ Grown chain' [tuple] chain'' ∧
      ∀ catalog, maintain .insertEntry target.schema tuple copy oids db.catalog = some catalog →
        FeedOk source target predicate oids
          ⟨source, predicate, .seqScan (rids'.head?.getD TableHeap.endRid)⟩ ⟨catalog, pages⟩ chain
          chain'' rids' := by
  obtain ⟨front, hsplit⟩ := h.split
  obtain ⟨copy, pages, chain'', hins, hnext, hgrown, hheaps⟩ := h.toTwoHeaps.insert hlen hid
  obtain ⟨hend, -⟩ | ⟨t, r, skipped, -, hrids, -⟩ := select_split hselect
  · cases hend
  have hsplit' : chain.liveRids = (front ++ skipped ++ [r]) ++ rids' := by
    rw [hsplit, hrids]
    simp only [List.append_assoc, List.cons_append, List.nil_append]
  refine ⟨copy, pages, chain'', hins, hnext, hgrown, fun catalog hmaintain => ?_⟩
  have hkept := maintained mapOnly_insertEntry h.catalog h.lists hmaintain
  exact ⟨hheaps, hkept.ok, hkept.lists, rfl, _, hsplit'⟩

/-! ## The loop -/

/-- **A loop whose rows can all be inserted** ends, and it has inserted them. -/
theorem exists_loop {still : List Tuple} : ∀ {scan : ScanExecutor} {db : Database}
    {chain' : HeapChain} {rids : List RID} {inserted : List Tuple},
    FeedOk source target predicate oids scan db chain chain' rids →
    HasIds db.pages still.length → selected source.schema predicate chain rids = some still →
    (∀ tuple ∈ still, Insertable db.catalog target.schema oids tuple) →
    ∃ fuel db' chain'', InsertExecutor.loop scanChild target oids fuel scan db inserted =
        some (inserted ++ still, db') ∧
      HeapRep target.table db'.pages chain'' ∧ Grown chain' still chain'' := by
  intro scan db chain' rids inserted h hids hstill hall
  obtain ⟨front, hsplit⟩ := h.split
  obtain rfl := h.scan_eq
  exact InsertExecutor.exists_loop h.toTwoHeaps h.catalog h.lists (.seqScan hsplit) hids hstill hall

end FeedOk

end OneBase
