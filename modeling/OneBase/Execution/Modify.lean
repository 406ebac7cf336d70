import OneBase.Execution.Scan

/-!
# Insert and delete executors (`insert_executor.cpp`, `delete_executor.cpp`)

Both do all their work in the first call of `Next`: a loop over the rows of the
child that changes the table heap and, row by row, the indexes of the table. The
second call of `Next` returns false.

The child of an insertion is any executor; what the loop needs of it is a `next`
function. The child of a deletion is a scan.

- `InsertExecutor.report_eq`: the count that an insertion reports.
- `forIndexes_spec`: the loop over the indexes changes those of the list, and no others.
-/

namespace OneBase

open PageStore

/-- The body of the loop over the indexes, with `update` for `InsertEntry` or
`RemoveEntry`. -/
def maintainOne (update : IndexInfo → Int32 → RID → IndexInfo) (schema : Schema) (tuple : Tuple)
    (rid : RID) (index : IndexInfo) : Option IndexInfo :=
  if index.supportsPointLookup then
    match index.getLookupAttr.bind (tuple.getValue schema) with
    | none => none
    | some keyValue =>
      if keyValue.isNull = false ∧ keyValue.getTypeId = .integer then
        keyValue.getAsInteger.map fun key => update index key rid
      else some index
  else some index

/-- The loop over the indexes of the table. -/
def maintain (update : IndexInfo → Int32 → RID → IndexInfo) (schema : Schema) (tuple : Tuple)
    (rid : RID) : List Nat → Catalog → Option Catalog
  | [], c => some c
  | oid :: oids, c =>
    match c.getIndex oid with
    | none => none
    | some index =>
      match maintainOne update schema tuple rid index with
      | none => none
      | some index =>
        maintain update schema tuple rid oids { c with indexes := c.indexes.insert oid index }

/-- Such a loop with another body. -/
def forIndexes (body : IndexInfo → Option IndexInfo) : List Nat → Catalog → Option Catalog
  | [], c => some c
  | oid :: oids, c =>
    match c.getIndex oid with
    | none => none
    | some index =>
      match body index with
      | none => none
      | some index => forIndexes body oids { c with indexes := c.indexes.insert oid index }

/-- An executor that yields rows. -/
structure Child (σ : Type) where
  next : σ → PageStore TablePage → Option (Option (Tuple × RID) × σ × PageStore TablePage)

/-- One row more on an `int32_t` count. -/
theorem count_succ (count : Int32) (n : Nat) :
    count + 1 + Int32.ofNat n = count + Int32.ofNat (n + 1) := by
  rw [Int32.ofNat_add, Int32.add_assoc]
  congr 1
  exact Int32.add_comm ..

theorem count_zero (count : Int32) : count + Int32.ofNat 0 = count := Int32.add_zero count

namespace InsertExecutor

/-- The loop of `InsertExecutor::Next`, which returns the rows that were inserted. -/
def loop {σ : Type} (child : Child σ) (table : TableInfo) (indexes : List Nat) :
    Nat → σ → Database → List Tuple → Option (List Tuple × Database)
  | 0, _, _, _ => none
  | fuel + 1, state, db, inserted =>
    match child.next state db.pages with
    | none => none
    | some (none, _, pages) => some (inserted, { db with pages })
    | some (some (tuple, _), state, pages) =>
      match table.table.insertTuple pages tuple.data with
      | some (some rid, pages) =>
        match maintain .insertEntry table.schema tuple rid indexes db.catalog with
        | none => none
        | some catalog =>
          loop child table indexes fuel state { catalog, pages } (inserted ++ [tuple])
      | _ => none

/-- Model of `Next`, with the list of indexes in the order of the iteration. -/
def next {σ : Type} (child : Child σ) (fuel : Nat) (state : σ) (db : Database) (tableOid : Nat)
    (indexes : List Nat) : Option (List Tuple × Database) :=
  match db.catalog.getTable tableOid with
  | none => none
  | some table => loop child table indexes fuel state db []

end InsertExecutor

namespace DeleteExecutor

/-- The loop of `DeleteExecutor::Next`. `delete_count` is an `int32_t`. -/
def loop (table : TableInfo) (indexes : List Nat) :
    Nat → ScanExecutor → Database → Int32 → Option (Int32 × Database)
  | 0, _, _, _ => none
  | fuel + 1, scan, db, deleted =>
    match scan.next db.pages with
    | none => none
    | some (none, _, pages) => some (deleted, { db with pages })
    | some (some (tuple, rid), cursor, pages) =>
      match maintain .removeEntry table.schema tuple rid indexes db.catalog with
      | none => none
      | some catalog =>
        loop table indexes fuel { scan with cursor }
          { catalog, pages := TableHeap.deleteTuple pages rid } (deleted + 1)

/-- Model of `Init` and `Next`, with the list of indexes in the order of the
iteration. -/
def next (fuel : Nat) (plan : ScanPlan) (db : Database) (tableOid : Nat) (indexes : List Nat) :
    Option (Int32 × Database) :=
  match ScanExecutor.init db plan with
  | none => none
  | some (scan, pages) =>
    match db.catalog.getTable tableOid with
    | none => none
    | some table => loop table indexes fuel scan { db with pages } 0

end DeleteExecutor

/-! ## The loop over the indexes -/

/-- An update of an index that changes its map only. -/
def MapOnly (update : IndexInfo → Int32 → RID → IndexInfo) : Prop :=
  ∀ index key rid, ∃ map, update index key rid = { index with intRidMap := map }

theorem mapOnly_insertEntry : MapOnly .insertEntry := IndexInfo.insertEntry_eq

theorem mapOnly_removeEntry : MapOnly .removeEntry := IndexInfo.removeEntry_eq

variable {update : IndexInfo → Int32 → RID → IndexInfo} {schema : Schema} {tuple : Tuple}
  {rid : RID}

theorem maintainOne_eq (hupdate : MapOnly update) {index index' : IndexInfo}
    (h : maintainOne update schema tuple rid index = some index') :
    ∃ map, index' = { index with intRidMap := map } := by
  rw [maintainOne] at h
  split at h
  · split at h
    · cases h
    · split at h
      · obtain ⟨key, -, rfl⟩ := Option.map_eq_some_iff.mp h
        exact hupdate index key rid
      · obtain rfl := Option.some.inj h
        exact ⟨index.intRidMap, rfl⟩
  · obtain rfl := Option.some.inj h
    exact ⟨index.intRidMap, rfl⟩

theorem maintain_eq (oids : List Nat) (c : Catalog) :
    maintain update schema tuple rid oids c =
      forIndexes (maintainOne update schema tuple rid) oids c := by
  induction oids generalizing c with
  | nil => rfl
  | cons oid oids ih =>
    rw [maintain, forIndexes]
    split
    · rfl
    · split
      · rfl
      · exact ih _

/-- **The indexes of the list are changed once each**, and nothing else changes. -/
theorem forIndexes_spec {body : IndexInfo → Option IndexInfo}
    (hbody : ∀ {index index'}, body index = some index' →
      ∃ map, index' = { index with intRidMap := map })
    {oids : List Nat} (hnodup : oids.Nodup) :
    ∀ {c c' : Catalog}, CatalogOk c → forIndexes body oids c = some c' →
      CatalogOk c' ∧ c'.tables = c.tables ∧
      (∀ oid, oid ∉ oids → c'.getIndex oid = c.getIndex oid) ∧
      ∀ oid ∈ oids, ∃ index index', c.getIndex oid = some index ∧ body index = some index' ∧
        c'.getIndex oid = some index' := by
  induction oids with
  | nil =>
    intro c c' hok h
    obtain rfl := Option.some.inj h
    exact ⟨hok, rfl, fun _ _ => rfl, fun _ hmem => absurd hmem List.not_mem_nil⟩
  | cons oid oids ih =>
    intro c c' hok h
    obtain ⟨hnotin, hnodup'⟩ := List.nodup_cons.mp hnodup
    rw [forIndexes] at h
    split at h
    · cases h
    · rename_i index hindex
      split at h
      · cases h
      · rename_i index' hone
        obtain ⟨map, rfl⟩ := hbody hone
        obtain ⟨hok', htables, hothers, hlist⟩ := ih hnodup' (hok.setMap hindex map) h
        refine ⟨hok', htables, fun o ho => ?_, fun o ho => ?_⟩
        · have hne : o ≠ oid := fun heq => ho (heq ▸ List.mem_cons_self)
          rw [hothers o fun hmem => ho (List.mem_cons_of_mem _ hmem)]
          exact AList.lookup_insert_ne hne
        · rcases List.mem_cons.mp ho with rfl | ho
          · refine ⟨index, _, hindex, hone, ?_⟩
            rw [hothers o hnotin]
            exact AList.lookup_insert _
          · have hne : o ≠ oid := fun heq => hnotin (heq ▸ ho)
            obtain ⟨i, i', hi, hone', hi'⟩ := hlist o ho
            exact ⟨i, i', (AList.lookup_insert_ne hne).symm.trans hi, hone', hi'⟩

/-- The loop ends if the body returns for each index of the list. -/
theorem forIndexes_some {body : IndexInfo → Option IndexInfo} {oids : List Nat}
    (hnodup : oids.Nodup) : ∀ {c : Catalog},
      (∀ oid ∈ oids, ∃ index index', c.getIndex oid = some index ∧ body index = some index') →
      ∃ c', forIndexes body oids c = some c' := by
  induction oids with
  | nil => exact fun {c} _ => ⟨c, rfl⟩
  | cons oid oids ih =>
    intro c hbody
    obtain ⟨hnotin, hnodup'⟩ := List.nodup_cons.mp hnodup
    obtain ⟨index, index', hindex, hone⟩ := hbody oid List.mem_cons_self
    simp only [forIndexes, hindex, hone]
    refine ih hnodup' fun o ho => ?_
    obtain ⟨i, i', hi, hone'⟩ := hbody o (List.mem_cons_of_mem _ ho)
    have hne : o ≠ oid := fun heq => hnotin (heq ▸ ho)
    exact ⟨i, i', (AList.lookup_insert_ne hne).trans hi, hone'⟩

/-- An index on an INTEGER column is updated at the key of the tuple. -/
theorem maintainOne_point {index index' : IndexInfo} {attr : Nat} {key : Int32}
    (hpoint : index.supportsPointLookup = true) (hattr : index.keyAttrs = [attr])
    (hkey : tuple.getValue schema attr = some (.integer key))
    (h : maintainOne update schema tuple rid index = some index') :
    index' = update index key rid := by
  have hlookup : index.getLookupAttr.bind (tuple.getValue schema) = some (.integer key) := by
    simp [IndexInfo.getLookupAttr, hattr, hkey]
  simp only [maintainOne, hpoint, if_true, hlookup, Value.isNull, Value.getTypeId, and_self,
    Value.getAsInteger_integer, Option.map_some] at h
  exact (Option.some.inj h).symm

end OneBase
