import OneBase.Execution.InsertSelect
import OneBase.Execution.Joins
import OneBase.Lib.Products

/-!
# The rows of a scan (`seq_scan_executor.cpp`)

- `HasRows`: the rows of the tables.
- `ScanExecutor.yields_iff`: a scan of a table returns its rows that satisfy the predicate, and
  has no result if the predicate has no value on one of them.
-/

namespace OneBase

open Cpp PageStore

/-- A scan as the child of an executor. A scan does not change the pages, so that each `Init`
starts from the same ones. -/
def ScanExecutor.executor (db : Database) (plan : ScanPlan) (outputSchema : Schema) :
    Executor (ScanExecutor × PageStore TablePage) where
  outputSchema := outputSchema
  init := fun _ => ScanExecutor.init db plan
  next := fun (scan, s) =>
    match scan.next s with
    | none => none
    | some (r, cursor, s) => some (r.map Prod.fst, { scan with cursor }, s)

/-- The rows of a table, as they are read from the pages. -/
def IsTable (db : Database) (table : TableInfo) (rows : List Tuple) : Prop :=
  ∃ chain, HeapRep table.table db.pages chain ∧
    selected table.schema none chain chain.liveRids = some rows

/-- The rows of the tables, by their oids. -/
def HasRows (db : Database) (rows : Nat → List Tuple) : Prop :=
  ∀ oid table, db.catalog.getTable oid = some table → IsTable db table (rows oid)

/-- What the first call of `Next` says about the rows. -/
theorem Executor.produces_iff_next {σ : Type} {e : Executor σ} {st : σ} {out : List Tuple} :
    e.Produces st out ↔
      match e.next st with
      | none => False
      | some (none, _) => out = []
      | some (some tuple, st') => ∃ rest, out = tuple :: rest ∧ e.Produces st' rest := by
  constructor
  · intro h
    cases h with
    | done hnext => rw [hnext]
    | row hnext hrest =>
      rw [hnext]
      exact ⟨_, rfl, hrest⟩
  · intro h
    split at h
    · exact h.elim
    · rename_i st' hnext
      subst h
      exact .done hnext
    · rename_i tuple st' hnext
      obtain ⟨rest, rfl, hrest⟩ := h
      exact .row hnext hrest

/-! ## What is selected -/

section Selected

variable {schema : Schema} {predicate : Option Expression} {chain : HeapChain}

/-- **What is selected** of some rows. -/
theorem selected_eq_filterOption {rids : List RID} {rows : List Tuple}
    (hrows : selected schema none chain rids = some rows) :
    selected schema predicate chain rids =
      filterOption (fun tuple => ScanExecutor.selects predicate tuple schema) rows := by
  induction rids generalizing rows with
  | nil =>
    obtain rfl := Option.some.inj hrows
    rfl
  | cons rid rids ih =>
    rw [selected] at hrows
    cases hread : ScanExecutor.rebuild schema rid ((chain.tupleAt rid).getD []) with
    | none =>
      rw [hread] at hrows
      cases hrows
    | some tuple =>
      rw [hread] at hrows
      obtain ⟨rest, hrest, rfl⟩ := Option.map_eq_some_iff.mp hrows
      cases hselects : ScanExecutor.selects predicate tuple schema with
      | none => simp only [selected, hread, filterOption, hselects]
      | some b => cases b <;> simp only [selected, hread, filterOption, hselects, ih hrest]

/-- A row that is read has a value for each column. -/
theorem length_values_of_rebuild {rid : RID} {bytes : List UInt8} {tuple : Tuple}
    (h : ScanExecutor.rebuild schema rid bytes = some tuple) :
    tuple.values.length = schema.given.length := by
  rw [ScanExecutor.rebuild] at h
  split at h
  · cases h
  · rename_i values hvalues
    obtain ⟨data, -, rfl⟩ := Option.map_eq_some_iff.mp h
    show values.length = _
    rw [(Tuple.getElem_getValuesFrom hvalues).1, Schema.getColumnCount_eq]

theorem length_values_of_selected {rids : List RID} {rows : List Tuple}
    (hrows : selected schema none chain rids = some rows) :
    ∀ tuple ∈ rows, tuple.values.length = schema.given.length := by
  induction rids generalizing rows with
  | nil =>
    obtain rfl := Option.some.inj hrows
    exact fun tuple htuple => absurd htuple List.not_mem_nil
  | cons rid rids ih =>
    rw [selected] at hrows
    split at hrows
    · cases hrows
    · rename_i tuple hread
      obtain ⟨rest, hrest, rfl⟩ := Option.map_eq_some_iff.mp hrows
      exact List.forall_mem_cons.mpr ⟨length_values_of_rebuild hread, ih hrest⟩

/-- A column of a row that has them all. -/
theorem getValue_of_length {tuple : Tuple} (hlen : tuple.values.length = schema.given.length)
    (i : Nat) : tuple.getValue schema i = tuple.values[i]? := by
  rw [Tuple.getValue]
  cases hvalue : tuple.values[i]? with
  | some v => rfl
  | none =>
    -- beyond the values there are no columns
    have hle : schema.given.length ≤ i := hlen ▸ List.getElem?_eq_none_iff.mp hvalue
    rw [Schema.getColumn_eq, List.getElem?_eq_none_iff.mpr hle]
    rfl

end Selected

/-! ## What a scan returns -/

namespace ScanExecutor

variable {db : Database} {table : TableInfo} {predicate : Option Expression} {chain : HeapChain}
  {plan : ScanPlan} {outputSchema : Schema}

/-- The state of a scan that has still to visit these RIDs. -/
def visiting (db : Database) (table : TableInfo) (predicate : Option Expression)
    (rids : List RID) : ScanExecutor × PageStore TablePage :=
  (⟨table, predicate, .seqScan (rids.head?.getD TableHeap.endRid)⟩, db.pages)

/-- One call of `Next`. -/
theorem executor_next (hrep : HeapRep table.table db.pages chain) {front rids : List RID}
    (hsplit : chain.liveRids = front ++ rids) :
    (executor db plan outputSchema).next (visiting db table predicate rids) =
      (select table.schema predicate chain rids).map fun r =>
        (r.1.map Prod.fst, visiting db table predicate r.2) := by
  have hlen := hrep.length_liveRids_lt
  rw [hsplit, List.length_append] at hlen
  have hfuel : rids.length < TableHeap.tupleFuel db.pages := by omega
  dsimp only [executor, visiting, next]
  rw [nextSeq_eq hrep hsplit hfuel]
  cases select table.schema predicate chain rids with
  | none => rfl
  | some r => rfl

/-- **What is returned** from some RIDs on. -/
theorem produces_iff (hrep : HeapRep table.table db.pages chain) {out : List Tuple} :
    ∀ {front rids : List RID}, chain.liveRids = front ++ rids →
      ((executor db plan outputSchema).Produces (visiting db table predicate rids) out ↔
        selected table.schema predicate chain rids = some out) := by
  induction out with
  | nil =>
    intro front rids hsplit
    rw [Executor.produces_iff_next, executor_next hrep hsplit, selected_eq]
    cases select table.schema predicate chain rids with
    | none => simp
    | some r =>
      obtain ⟨row, rids'⟩ := r
      cases row with
      | none => simp
      | some row => simp
  | cons tuple out ih =>
    intro front rids hsplit
    rw [Executor.produces_iff_next, executor_next hrep hsplit, selected_eq]
    cases hselect : select table.schema predicate chain rids with
    | none => simp
    | some r =>
      obtain ⟨row, rids'⟩ := r
      cases row with
      | none => simp
      | some row =>
        -- the rows after the first one are those of the RIDs behind it
        rcases select_split hselect with ⟨hend, -⟩ | ⟨first, rid, skipped, hrow, hrids, -⟩
        · cases hend
        obtain rfl := Option.some.inj hrow
        have hsplit' : chain.liveRids = (front ++ skipped ++ [rid]) ++ rids' := by
          rw [hsplit, hrids]
          simp only [List.append_assoc, List.singleton_append]
        have hrest := ih hsplit'
        constructor
        · rintro ⟨rest, heq, hproduces⟩
          obtain ⟨rfl, rfl⟩ := List.cons.inj heq
          show Option.map _ _ = _
          rw [hrest.mp hproduces]
          rfl
        · intro h
          obtain ⟨rest, hselected, heq⟩ := Option.map_eq_some_iff.mp h
          obtain ⟨rfl, rfl⟩ := List.cons.inj heq
          exact ⟨rest, rfl, hrest.mpr hselected⟩

/-- **A scan of a table returns** the rows that satisfy the predicate. -/
theorem yields_iff {oid : Nat} {rows out : List Tuple}
    (htable : db.catalog.getTable oid = some table) (hrows : IsTable db table rows) :
    (executor db (.seqScan oid predicate) outputSchema).Yields out ↔
      filterOption (fun tuple => selects predicate tuple table.schema) rows = some out := by
  obtain ⟨chain, hrep, hselected⟩ := hrows
  have hinit : ScanExecutor.init db (.seqScan oid predicate) =
      some (visiting db table predicate chain.liveRids) := by
    simp only [init, htable, hrep.begin]
    rfl
  have hproduces : (executor db (.seqScan oid predicate) outputSchema).Produces
      (visiting db table predicate chain.liveRids) out ↔
        selected table.schema predicate chain chain.liveRids = some out :=
    produces_iff hrep (List.nil_append chain.liveRids).symm
  rw [← selected_eq_filterOption hselected, ← hproduces]
  constructor
  · intro hyields
    obtain ⟨st, hst, hproduces⟩ := hyields (visiting db table predicate chain.liveRids)
    obtain rfl := Option.some.inj (hinit.symm.trans hst)
    exact hproduces
  · exact fun hproduces st => ⟨_, hinit, hproduces⟩

end ScanExecutor

end OneBase
