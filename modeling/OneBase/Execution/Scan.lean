import OneBase.Catalog.Consistency

/-!
# Scan executors (`seq_scan_executor.cpp`, `index_scan_executor.cpp`)

`SeqScan` follows the iterator of the table heap, `IndexScan` a copy of the RIDs
that the index held under the key when the scan was initialised. Both read the
tuple, build it anew from its values and return it if it satisfies the predicate.

An expression is its `Evaluate` function, which may throw. The catalog and the
pages are the `Database` that the executor context leads to.

- `Pending`: the RIDs that a scan has still to visit.
- `next_eq`: a scan returns the first of them that satisfies the predicate.
- `next_spec`: what a scan returns is a live tuple that it will not visit again.
- `Pending.deleteAt`: a visited tuple may be deleted during the scan.
-/

namespace OneBase

open PageStore

/-- What the executor context gives access to. -/
structure Database where
  catalog : Catalog := {}
  pages : PageStore TablePage

/-- Model of `Evaluate` of an expression. -/
abbrev Expression := Tuple → Schema → Option Value

/-- The plan of a scan. A lookup key is evaluated without a tuple. -/
inductive ScanPlan where
  | seqScan (tableOid : Nat) (predicate : Option Expression)
  | indexScan (tableOid indexOid : Nat) (lookupKey : Option (Option Value))
      (predicate : Option Expression)

/-- Where a scan is: the member `iter_`, or `matching_rids_` from `cursor_` on. -/
inductive Cursor where
  | seqScan (iter : RID)
  | indexScan (matchingRids : List RID)

/-- A scan executor after `Init`. -/
structure ScanExecutor where
  tableInfo : TableInfo
  predicate : Option Expression
  cursor : Cursor

namespace ScanExecutor

/-- The RIDs that `IndexScanExecutor::Init` copies (index_scan_executor.cpp:23–35). -/
def lookup (index : IndexInfo) (lookupKey : Option (Option Value)) : Option (List RID) :=
  if index.supportsPointLookup then
    match lookupKey with
    | none => some []
    | some none => none
    | some (some keyValue) =>
      if keyValue.isNull = false ∧ keyValue.getTypeId = .integer then
        keyValue.getAsInteger.map index.rids
      else some []
  else some []

/-- Model of `Init` of the two executors. -/
def init (db : Database) : ScanPlan → Option (ScanExecutor × PageStore TablePage)
  | .seqScan tableOid predicate =>
    match db.catalog.getTable tableOid with
    | none => none
    | some tableInfo =>
      match tableInfo.table.begin db.pages with
      | none => none
      | some (iter, pages) => some ({ tableInfo, predicate, cursor := .seqScan iter }, pages)
  | .indexScan tableOid indexOid lookupKey predicate =>
    match db.catalog.getTable tableOid, db.catalog.getIndex indexOid with
    | some tableInfo, some indexInfo =>
      match lookup indexInfo lookupKey with
      | none => none
      | some matchingRids =>
        some ({ tableInfo, predicate, cursor := .indexScan matchingRids }, db.pages)
    | _, _ => none

/-- The tuple that is built from the values of a stored one. -/
def rebuild (schema : Schema) (rid : RID) (bytes : List UInt8) : Option Tuple :=
  match (Tuple.ofBytes rid bytes).getValues schema with
  | none => none
  | some values => Tuple.ofValues values

/-- Whether the tuple satisfies the predicate; no predicate is satisfied by all. -/
def selects (predicate : Option Expression) (tuple : Tuple) (schema : Schema) : Option Bool :=
  match predicate with
  | none => some true
  | some evaluate =>
    match evaluate tuple schema with
    | none => none
    | some result => if result.isNull then some false else result.getAsBoolean

/-- What `Next` returns: a tuple with its RID or the end, and the cursor and the
pages after it. -/
abbrev Result := Option (Option (Tuple × RID) × Cursor × PageStore TablePage)

/-- The loop of `SeqScanExecutor::Next`. -/
def nextSeq (schema : Schema) (predicate : Option Expression) :
    Nat → PageStore TablePage → RID → Result
  | 0, _, _ => none
  | fuel + 1, s, iter =>
    if iter = TableHeap.endRid then some (none, .seqScan iter, s)
    else
      let (bytes, s) := TableHeap.getTuple s iter
      match TableHeap.next s iter with
      | none => none
      | some (iter', s) =>
        match rebuild schema iter bytes with
        | none => none
        | some tuple =>
          match selects predicate tuple schema with
          | none => none
          | some true => some (some (tuple, iter), .seqScan iter', s)
          | some false => nextSeq schema predicate fuel s iter'

/-- The loop of `IndexScanExecutor::Next`. -/
def nextIndex (schema : Schema) (predicate : Option Expression) :
    List RID → PageStore TablePage → Result
  | [], s => some (none, .indexScan [], s)
  | rid :: rids, s =>
    let (bytes, s) := TableHeap.getTuple s rid
    match rebuild schema rid bytes with
    | none => none
    | some tuple =>
      match selects predicate tuple schema with
      | none => none
      | some true => some (some (tuple, rid), .indexScan rids, s)
      | some false => nextIndex schema predicate rids s

/-- Model of `Next`. -/
def next (scan : ScanExecutor) (s : PageStore TablePage) : Result :=
  match scan.cursor with
  | .seqScan iter => nextSeq scan.tableInfo.schema scan.predicate (TableHeap.tupleFuel s) s iter
  | .indexScan rids => nextIndex scan.tableInfo.schema scan.predicate rids s

end ScanExecutor

/-! ## What a scan has still to visit -/

/-- The RIDs a scan has still to visit. They are live, and none is visited twice. -/
inductive Pending (chain : HeapChain) : Cursor → List RID → Prop where
  | seqScan {front rids : List RID} : chain.liveRids = front ++ rids →
      Pending chain (.seqScan (rids.head?.getD TableHeap.endRid)) rids
  | indexScan {rids : List RID} : rids.Nodup → (∀ rid ∈ rids, rid ∈ chain.liveRids) →
      Pending chain (.indexScan rids) rids

theorem Pending.live {chain : HeapChain} {cursor : Cursor} {rids : List RID}
    (h : Pending chain cursor rids) : ∀ rid ∈ rids, rid ∈ chain.liveRids := by
  cases h with
  | seqScan hsplit =>
    intro rid hrid
    rw [hsplit]
    exact List.mem_append_right _ hrid
  | indexScan _ hlive => exact hlive

theorem Pending.nodup {t : TableHeap} {s : PageStore TablePage} {chain : HeapChain}
    {cursor : Cursor} {rids : List RID} (h : Pending chain cursor rids)
    (hrep : HeapRep t s chain) : rids.Nodup := by
  cases h with
  | seqScan hsplit =>
    have hnodup := hrep.nodup_liveRids
    rw [hsplit] at hnodup
    exact (List.nodup_append.mp hnodup).2.1
  | indexScan hnodup _ => exact hnodup

/-- **A tuple that is not pending may be deleted.** -/
theorem Pending.deleteAt {chain : HeapChain} {cursor : Cursor} {rids : List RID} {rid : RID}
    (h : Pending chain cursor rids) (hrid : rid ∉ rids) :
    Pending (chain.deleteAt rid) cursor rids := by
  have hkeep : ∀ r ∈ rids, r ≠ rid := by
    rintro r hr rfl
    exact hrid hr
  cases h with
  | @seqScan front _ hsplit =>
    have hrids : rids.filter (· ≠ rid) = rids :=
      List.filter_eq_self.mpr fun r hr => by simpa using hkeep r hr
    have hsplit' : (chain.deleteAt rid).liveRids = front.filter (· ≠ rid) ++ rids := by
      rw [HeapChain.liveRids_deleteAt, hsplit, List.filter_append, hrids]
    exact .seqScan hsplit'
  | indexScan hnodup hlive =>
    refine .indexScan hnodup fun r hr => ?_
    rw [HeapChain.liveRids_deleteAt]
    exact List.mem_filter.mpr ⟨hlive r hr, by simpa using hkeep r hr⟩

/-- The first pending tuple that satisfies the predicate, and what is pending after
it. -/
def select (schema : Schema) (predicate : Option Expression) (chain : HeapChain) :
    List RID → Option (Option (Tuple × RID) × List RID)
  | [] => some (none, [])
  | rid :: rids =>
    match ScanExecutor.rebuild schema rid ((chain.tupleAt rid).getD []) with
    | none => none
    | some tuple =>
      match ScanExecutor.selects predicate tuple schema with
      | none => none
      | some true => some (some (tuple, rid), rids)
      | some false => select schema predicate chain rids

/-- What is selected was pending, and it is in front of what is pending after it. -/
theorem select_split {schema : Schema} {predicate : Option Expression} {chain : HeapChain}
    {rids : List RID} {r : Option (Tuple × RID)} {rids' : List RID}
    (h : select schema predicate chain rids = some (r, rids')) :
    (r = none ∧ rids' = []) ∨ ∃ tuple rid skipped, r = some (tuple, rid) ∧
      rids = skipped ++ rid :: rids' ∧
      ScanExecutor.rebuild schema rid ((chain.tupleAt rid).getD []) = some tuple := by
  induction rids with
  | nil =>
    obtain ⟨rfl, rfl⟩ := Prod.mk.inj (Option.some.inj h)
    exact .inl ⟨rfl, rfl⟩
  | cons rid rids ih =>
    rw [select] at h
    split at h
    · cases h
    · rename_i tuple htuple
      split at h
      · cases h
      · obtain ⟨rfl, rfl⟩ := Prod.mk.inj (Option.some.inj h)
        exact .inr ⟨tuple, rid, [], rfl, rfl, htuple⟩
      · rcases ih h with hend | ⟨t, r', skipped, hr, hsplit, ht⟩
        · exact .inl hend
        · exact .inr ⟨t, r', rid :: skipped, hr, by rw [hsplit]; rfl, ht⟩

namespace ScanExecutor

variable {h : TableHeap} {s : PageStore TablePage} {chain : HeapChain} {schema : Schema}
  {predicate : Option Expression}

/-- One call of `SeqScanExecutor::Next`. The induction is on the pending RIDs. -/
theorem nextSeq_eq (hrep : HeapRep h s chain) : ∀ {rids front : List RID} {fuel : Nat},
    chain.liveRids = front ++ rids → rids.length < fuel →
    nextSeq schema predicate fuel s (rids.head?.getD TableHeap.endRid) =
      (select schema predicate chain rids).map fun r =>
        (r.1, .seqScan (r.2.head?.getD TableHeap.endRid), s) := by
  intro rids
  induction rids with
  | nil =>
    intro front fuel _ hfuel
    obtain ⟨fuel, rfl⟩ := Nat.exists_eq_succ_of_ne_zero (Nat.ne_of_gt hfuel)
    simp [nextSeq, select]
  | cons rid rids ih =>
    intro front fuel hsplit hfuel
    obtain ⟨fuel, rfl⟩ := Nat.exists_eq_succ_of_ne_zero (Nat.ne_of_gt (Nat.zero_lt_of_lt hfuel))
    obtain ⟨bytes, hlive⟩ := hrep.mem_tupleAt hsplit
    have hsplit' : chain.liveRids = (front ++ [rid]) ++ rids := by simp [hsplit]
    have hrest := ih hsplit' (Nat.lt_of_succ_lt_succ hfuel)
    simp only [nextSeq, select, List.head?_cons, Option.getD_some, hrep.ne_endRid hlive, if_false,
      hrep.getTuple hlive, hrep.next_of_split hsplit, hlive, hrest]
    cases rebuild schema rid bytes with
    | none => rfl
    | some tuple =>
      cases hselects : selects predicate tuple schema with
      | none => simp only [hselects, Option.map_none]
      | some b => cases b <;> simp only [hselects, Option.map_some]

/-- One call of `IndexScanExecutor::Next`. -/
theorem nextIndex_eq (hrep : HeapRep h s chain) : ∀ {rids : List RID},
    (∀ rid ∈ rids, rid ∈ chain.liveRids) →
    nextIndex schema predicate rids s =
      (select schema predicate chain rids).map fun r => (r.1, .indexScan r.2, s) := by
  intro rids
  induction rids with
  | nil => exact fun _ => rfl
  | cons rid rids ih =>
    intro hmem
    obtain ⟨bytes, hlive⟩ := Option.ne_none_iff_exists'.mp
      ((HeapChain.mem_liveRids hrep.nodup rid).mp (hmem rid List.mem_cons_self))
    simp only [nextIndex, select, hrep.getTuple hlive, hlive, Option.getD_some,
      ih fun r hr => hmem r (List.mem_cons_of_mem _ hr)]
    cases rebuild schema rid bytes with
    | none => rfl
    | some tuple =>
      cases hselects : selects predicate tuple schema with
      | none => simp only [hselects, Option.map_none]
      | some b => cases b <;> simp only [hselects, Option.map_some]

/-- **A scan returns the first pending tuple that satisfies the predicate**, and
leaves the pages as they are. -/
theorem next_eq {scan : ScanExecutor} {rids : List RID} (hrep : HeapRep h s chain)
    (hpending : Pending chain scan.cursor rids) :
    ∃ cursor : List RID → Cursor, (∀ skipped rids', rids = skipped ++ rids' →
        Pending chain (cursor rids') rids') ∧
      scan.next s = (select scan.tableInfo.schema scan.predicate chain rids).map fun r =>
        (r.1, cursor r.2, s) := by
  obtain ⟨table, predicate, cursor₀⟩ := scan
  cases hpending with
  | @seqScan front _ hsplit =>
    refine ⟨fun rids => .seqScan (rids.head?.getD TableHeap.endRid), ?_, ?_⟩
    · rintro skipped rids' rfl
      have hsplit' : chain.liveRids = (front ++ skipped) ++ rids' := by
        rw [hsplit, List.append_assoc]
      exact .seqScan hsplit'
    · refine nextSeq_eq hrep hsplit ?_
      have hlen := hrep.length_liveRids_lt
      rw [hsplit, List.length_append] at hlen
      omega
  | indexScan hnodup hlive =>
    refine ⟨.indexScan, ?_, nextIndex_eq hrep hlive⟩
    rintro skipped rids' rfl
    exact .indexScan (List.nodup_append.mp hnodup).2.1
      fun r hr => hlive r (List.mem_append_right _ hr)

/-- **What a scan returns is live**, and it will not be visited again. -/
theorem next_spec {scan : ScanExecutor} {rids : List RID} {s' : PageStore TablePage}
    {r : Option (Tuple × RID)} {cursor : Cursor} (hrep : HeapRep h s chain)
    (hpending : Pending chain scan.cursor rids) (hnext : scan.next s = some (r, cursor, s')) :
    s' = s ∧ ∀ tuple rid, r = some (tuple, rid) → ∃ rids' bytes, Pending chain cursor rids' ∧
      (rid :: rids').Sublist rids ∧ rid ∉ rids' ∧ chain.tupleAt rid = some bytes ∧
      rebuild scan.tableInfo.schema rid bytes = some tuple := by
  obtain ⟨cursor', hcursor, heq⟩ := next_eq hrep hpending
  rw [hnext] at heq
  obtain ⟨⟨r', rids'⟩, hselect, hr⟩ := Option.map_eq_some_iff.mp heq.symm
  obtain ⟨rfl, rfl, rfl⟩ : r' = r ∧ cursor' rids' = cursor ∧ s = s' := by simpa using hr
  refine ⟨rfl, fun tuple rid hr => ?_⟩
  rcases select_split hselect with ⟨rfl, -⟩ | ⟨t, rd, skipped, rfl, hsplit, htuple⟩
  · cases hr
  · obtain ⟨rfl, rfl⟩ := Prod.mk.inj (Option.some.inj hr)
    have hlive : rd ∈ rids := by simp [hsplit]
    obtain ⟨bytes, hbytes⟩ := Option.ne_none_iff_exists'.mp
      ((HeapChain.mem_liveRids hrep.nodup rd).mp (hpending.live rd hlive))
    rw [hbytes] at htuple
    refine ⟨rids', bytes, hcursor (skipped ++ [rd]) rids' (by simp [hsplit]), ?_, ?_, hbytes,
      htuple⟩
    · rw [hsplit]
      exact List.sublist_append_right _ _
    · have hnodup := hpending.nodup hrep
      rw [hsplit] at hnodup
      exact (List.nodup_cons.mp (List.nodup_append.mp hnodup).2.1).1

/-- The rebuilt tuple has a value in every column. -/
theorem getValue_of_rebuild {rid : RID} {bytes : List UInt8} {tuple : Tuple}
    (h : rebuild schema rid bytes = some tuple) {i : Nat} (hi : i < schema.getColumnCount) :
    ∃ v, tuple.getValue schema i = some v := by
  rw [rebuild] at h
  split at h
  · cases h
  · rename_i values hvalues
    obtain ⟨hlen, -⟩ := Tuple.getElem_getValuesFrom hvalues
    exact ⟨_, Tuple.getValue_ofValues h schema (hlen.symm ▸ hi)⟩

/-- The rebuilt tuple has the values of the stored one. -/
theorem getValue_rebuild {rid : RID} {bytes : List UInt8} {tuple : Tuple}
    (h : rebuild schema rid bytes = some tuple) {i : Nat} (hi : i < schema.getColumnCount) :
    tuple.getValue schema i = (Tuple.ofBytes rid bytes).getValue schema i := by
  rw [rebuild] at h
  split at h
  · cases h
  · rename_i values hvalues
    obtain ⟨hlen, hget⟩ := Tuple.getElem_getValuesFrom hvalues
    have hi' : i < values.length := hlen.symm ▸ hi
    rw [Tuple.getValue_ofValues h schema hi', ← List.getElem?_eq_getElem hi', hget i hi,
      Nat.zero_add]

end ScanExecutor

/-- What is read from bytes does not depend on the RID. -/
theorem rebuild_rid (schema : Schema) (rid rid' : RID) (bytes : List UInt8) :
    ScanExecutor.rebuild schema rid bytes = ScanExecutor.rebuild schema rid' bytes := by
  have hvalues : ∀ n i, (Tuple.ofBytes rid bytes).getValuesFrom schema i n =
      (Tuple.ofBytes rid' bytes).getValuesFrom schema i n := by
    intro n
    induction n with
    | zero => exact fun _ => rfl
    | succ n ih =>
      intro i
      rw [Tuple.getValuesFrom, Tuple.getValuesFrom, ih]
      rfl
  rw [ScanExecutor.rebuild, ScanExecutor.rebuild, Tuple.getValues, Tuple.getValues, hvalues]

end OneBase
