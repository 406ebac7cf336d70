import OneBase.Storage.HeapWalk

/-!
# A table heap is a map

Runs of `InsertTuple`, `DeleteTuple` and `GetTuple` on a new heap, against the map
from RIDs to byte strings that they should build.

- `HeapRun`: the runs, with the live tuples and the RIDs returned so far.
- `HeapInv`: what every run keeps.
- `heapRun_isMap`: the heap and its iterator behave as the map.
-/

namespace OneBase

open Cpp PageStore TablePage

/-- Runs of operations on a heap, with the tuples that should be live and the RIDs
that `InsertTuple` has returned. An insertion needs a page id that fits in
`page_id_t` to be left, in case it appends a page. -/
inductive HeapRun (s₀ : PageStore TablePage) (h : TableHeap) :
    PageStore TablePage → (RID → Option (List UInt8)) → List RID → Prop where
  | create {s : PageStore TablePage} :
      TableHeap.create s₀ = (h, s) → HeapRun s₀ h s (fun _ => none) []
  | insert {s s' : PageStore TablePage} {live : RID → Option (List UInt8)} {issued : List RID}
      {tuple : List UInt8} {rid : RID} :
      HeapRun s₀ h s live issued → 1 ≤ tuple.length → tuple.length ≤ 4076 →
      s.nextPageId < 2 ^ 31 → h.insertTuple s tuple = some (some rid, s') →
      HeapRun s₀ h s' (Function.update live rid (some tuple)) (rid :: issued)
  | delete {s : PageStore TablePage} {live : RID → Option (List UInt8)} {issued : List RID}
      {rid : RID} :
      HeapRun s₀ h s live issued → live rid ≠ none →
      HeapRun s₀ h (TableHeap.deleteTuple s rid) (Function.update live rid none) issued
  | get {s s' : PageStore TablePage} {live : RID → Option (List UInt8)} {issued : List RID}
      {rid : RID} {bytes : List UInt8} :
      HeapRun s₀ h s live issued → TableHeap.getTuple s rid = (bytes, s') →
      HeapRun s₀ h s' live issued

/-- The heap is the map `live`, and its operations are those of a map. -/
structure IsMap (h : TableHeap) (s : PageStore TablePage) (live : RID → Option (List UInt8))
    (issued : List RID) : Prop where
  insert : ∀ tuple : List UInt8, 1 ≤ tuple.length → tuple.length ≤ 4076 →
    s.nextPageId < 2 ^ 31 → ∃ rid s', h.insertTuple s tuple = some (some rid, s') ∧
      rid ∉ issued ∧ s'.pinCount = s.pinCount
  get : ∀ rid bytes, live rid = some bytes → TableHeap.getTuple s rid = (bytes, s)
  get_pins : ∀ rid, (TableHeap.getTuple s rid).2.pinCount = s.pinCount
  delete_pins : ∀ rid, live rid ≠ none → (TableHeap.deleteTuple s rid).pinCount = s.pinCount
  begin_pins : ∃ rid, h.begin s = some (rid, s)
  next_pins : ∀ rid, live rid ≠ none → ∃ rid', TableHeap.next s rid = some (rid', s)
  walk : ∃ ids rids fuel, PageChain s h.firstPageId ids ∧ ids.Nodup ∧
    h.walk fuel s = some (rids, s) ∧ rids.Pairwise (HeapChain.Before ids) ∧ rids.Nodup ∧
    ∀ rid, rid ∈ rids ↔ live rid ≠ none

/-- What a run keeps: the store holds a chain with the live tuples, and a RID that
was returned is a slot of it. -/
def HeapInv (h : TableHeap) (s : PageStore TablePage) (live : RID → Option (List UInt8))
    (issued : List RID) : Prop :=
  ∃ chain, HeapRep h s chain ∧ s.StoreOk ∧ (∀ rid, live rid = chain.tupleAt rid) ∧
    ∀ rid ∈ issued, chain.Used rid

theorem HeapInv.create {s₀ : PageStore TablePage} (hok : s₀.StoreOk) :
    HeapInv (TableHeap.create s₀).1 (TableHeap.create s₀).2 (fun _ => none) [] := by
  obtain ⟨hrep, hok', -⟩ := TableHeap.create_spec hok
  refine ⟨_, hrep, hok', fun rid => ?_, fun _ hmem => absurd hmem List.not_mem_nil⟩
  simp [HeapChain.tupleAt]

namespace HeapInv

variable {h : TableHeap} {s : PageStore TablePage} {live : RID → Option (List UInt8)}
  {issued : List RID}

/-- **An insertion** returns a new RID and keeps the invariant. -/
theorem insert (hinv : HeapInv h s live issued) (hid : s.nextPageId < 2 ^ 31)
    {tuple : List UInt8} (hpos : 1 ≤ tuple.length) (hlen : tuple.length ≤ 4076) :
    ∃ rid s', h.insertTuple s tuple = some (some rid, s') ∧ rid ∉ issued ∧
      s'.pinCount = s.pinCount ∧
      HeapInv h s' (Function.update live rid (some tuple)) (rid :: issued) := by
  obtain ⟨chain, hrep, hok, hlive, hissued⟩ := hinv
  obtain ⟨rid, s', chain', hins, hadds, hrep', hok', hinserted⟩ :=
    hrep.insertTuple hok hid hlen
  have htuple := hadds.tupleAt hrep.nodup hrep.fresh_notin
  have hne : tuple ≠ [] := List.length_pos_iff.mp hpos
  obtain ⟨hnew, hused⟩ := hadds.used hrep.nodup hrep.fresh_notin
  refine ⟨rid, s', hins, fun hmem => hnew (hissued rid hmem), hinserted.pins,
    chain', hrep', hok', fun r => ?_, fun r hr => ?_⟩
  · have hkept : (some tuple).filter (· ≠ []) = some tuple := by simp [hne]
    rw [htuple, hkept, Function.update_apply, hlive]
  · rcases List.mem_cons.mp hr with rfl | hr
    · exact (hused r).mpr (.inr rfl)
    · exact (hused r).mpr (.inl (hissued r hr))

/-- **A deletion** keeps the invariant. -/
theorem delete (hinv : HeapInv h s live issued) {rid : RID} (hrid : live rid ≠ none) :
    (TableHeap.deleteTuple s rid).pinCount = s.pinCount ∧
      HeapInv h (TableHeap.deleteTuple s rid) (Function.update live rid none) issued := by
  obtain ⟨chain, hrep, hok, hlive, hissued⟩ := hinv
  obtain ⟨bytes, hbytes⟩ := Option.ne_none_iff_exists'.mp hrid
  rw [hlive] at hbytes
  obtain ⟨hrep', hnext, hpins, -⟩ := hrep.deleteTuple hbytes
  refine ⟨hpins, chain.deleteAt rid, hrep', ⟨?_, fun p hp => ?_⟩, fun r => ?_, fun r hr => ?_⟩
  · rw [hnext]
    exact hok.next_nonneg
  · rw [hpins]
    exact hok.unpinned p (hnext ▸ hp)
  · rw [HeapChain.tupleAt_deleteAt, Function.update_apply, hlive]
  · exact (HeapChain.used_deleteAt chain rid r).mpr (hissued r hr)

end HeapInv

theorem TableHeap.getTuple_store (s : PageStore TablePage) (rid : RID) :
    (TableHeap.getTuple s rid).2 = s := by
  simp only [TableHeap.getTuple, fetchPage, unpinPage_pinPage]

theorem HeapRun.inv {s₀ s : PageStore TablePage} {h : TableHeap}
    {live : RID → Option (List UInt8)} {issued : List RID} (hok : s₀.StoreOk)
    (hrun : HeapRun s₀ h s live issued) : HeapInv h s live issued := by
  induction hrun with
  | create hcreate =>
    have hinv := HeapInv.create hok
    rw [hcreate] at hinv
    exact hinv
  | insert _ hpos hlen hid hins ih =>
    obtain ⟨rid, s', hins', -, -, hinv⟩ := ih.insert hid hpos hlen
    rw [hins'] at hins
    obtain ⟨hrid, rfl⟩ := Prod.mk.inj (Option.some.inj hins)
    obtain rfl := Option.some.inj hrid
    exact hinv
  | delete _ hlive ih => exact (ih.delete hlive).2
  | @get s s' _ _ rid _ _ hget ih =>
    obtain rfl : s = s' := by rw [← TableHeap.getTuple_store s rid, hget]
    exact ih

/-- **A table heap is a map.** -/
theorem heapRun_isMap {s₀ s : PageStore TablePage} {h : TableHeap}
    {live : RID → Option (List UInt8)} {issued : List RID} (hok : s₀.StoreOk)
    (hrun : HeapRun s₀ h s live issued) : IsMap h s live issued := by
  have hinv := hrun.inv hok
  obtain ⟨chain, hrep, -, hlive, -⟩ := hinv
  exact {
    insert := fun tuple hpos hlen hid => by
      obtain ⟨rid, s', hins, hnew, hpins, -⟩ := (hrun.inv hok).insert hid hpos hlen
      exact ⟨rid, s', hins, hnew, hpins⟩
    get := fun rid bytes hbytes => hrep.getTuple (hlive rid ▸ hbytes)
    get_pins := fun rid => by rw [TableHeap.getTuple_store]
    delete_pins := fun rid hrid => ((hrun.inv hok).delete hrid).1
    begin_pins := ⟨_, hrep.begin⟩
    next_pins := fun rid hrid => by
      rw [hlive, ← HeapChain.mem_liveRids hrep.nodup] at hrid
      obtain ⟨front, back, hsplit⟩ := List.append_of_mem hrid
      exact ⟨_, hrep.next_of_split hsplit⟩
    walk := by
      have hpair := HeapChain.liveRids_pairwise hrep.nodup
      refine ⟨chain.map Prod.fst, chain.liveRids, _, hrep.linked.pageChain, hrep.nodup,
        hrep.walk (Nat.lt_succ_self _), hpair, hrep.nodup_liveRids, fun rid => ?_⟩
      rw [hlive]
      exact HeapChain.mem_liveRids hrep.nodup rid }

/-- A tuple inserted and deleted again. -/
theorem heapRun_isMap_delete : ∃ (s : PageStore TablePage) (rid : RID),
    HeapRun emptyStore ⟨0⟩ s (Function.update (Function.update (fun _ => none) rid (some [1, 2]))
      rid none) [rid] ∧
    IsMap ⟨0⟩ s (Function.update (Function.update (fun _ => none) rid (some [1, 2])) rid none)
      [rid] := by
  have hnew : HeapRun emptyStore ⟨0⟩ (TableHeap.create emptyStore).2 (fun _ => none) [] :=
    .create rfl
  have htuple : 1 ≤ ([1, 2] : List UInt8).length := by decide
  obtain ⟨rid, s, hins, -, -, -⟩ := (hnew.inv emptyStore_ok).insert (by decide) htuple (by decide)
  have hinsert := hnew.insert htuple (by decide) (by decide) hins
  have hlive : Function.update (fun _ => none) rid (some [1, 2]) rid ≠
      (none : Option (List UInt8)) := by
    simp
  have hdelete := hinsert.delete hlive
  exact ⟨_, rid, hdelete, heapRun_isMap emptyStore_ok hdelete⟩

end OneBase
