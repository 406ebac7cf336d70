import OneBase.Storage.HeapPrograms

/-!
# A table heap on a small pool is a map

`HeapMap` shows a heap a map over a store that never runs out of frames. Here
the heap runs on the buffer pool over the file, with pages evicted and fetched
back while it works, and with restarts. A pool of two frames is enough: a method
pins two pages at most.

- `PoolHeapRun`: insertions, deletions, reads, scans and restarts on a new heap.
- `PoolHeapInv`: the pool is mirrored by a store in which the heap is the map.
- `poolHeapRun_isMap`: what every run guarantees for the next call.
-/

namespace OneBase

open PageStore TablePage

namespace PoolHeap

/-- A method called on the pool; no pointer is out yet. -/
def runOn {α : Type} (prog : PageProg TablePage α) (b : DiskPool) : Except String (α × DiskPool) :=
  prog.runPool codec (fun _ => 0) b

/-- Fuel for a walk over the pages that were made. -/
def pageFuel (b : DiskPool) : Nat := Int.toNat b.diskManager.nextPageId + 1

/-- Model of `InsertTuple` on the pool. -/
def insertTuple (h : TableHeap) (tuple : List UInt8) (b : DiskPool) :
    Except String (Option (Option RID) × DiskPool) :=
  runOn (insertFrom tuple (pageFuel b) h.firstPageId) b

/-- A sequential scan on the pool; a page has at most 1020 slots. -/
def scanAll (h : TableHeap) (b : DiskPool) :
    Except String (Option (Except String (List (RID × List UInt8))) × DiskPool) :=
  runOn (scan h (pageFuel b) (1020 * pageFuel b)) b

end PoolHeap

/-- Runs of a heap on a pool of at least two frames, with the tuples that should
be live and the RIDs that `InsertTuple` has returned. -/
inductive PoolHeapRun (h : TableHeap) :
    DiskPool → (RID → Option (List UInt8)) → List RID → Prop where
  | create {poolSize k : Nat} {b : DiskPool} :
      2 ≤ poolSize →
      PoolHeap.runOn PoolHeap.create (DiskPool.create poolSize (DiskManager.create []) k) =
        .ok (.ok h, b) →
      PoolHeapRun h b (fun _ => none) []
  | insert {b b' : DiskPool} {live : RID → Option (List UInt8)} {issued : List RID}
      {tuple : List UInt8} {rid : RID} :
      PoolHeapRun h b live issued → 1 ≤ tuple.length → tuple.length ≤ 4076 →
      b.diskManager.nextPageId + 1 < 2 ^ 31 →
      PoolHeap.insertTuple h tuple b = .ok (some (some rid), b') →
      PoolHeapRun h b' (Function.update live rid (some tuple)) (rid :: issued)
  | delete {b b' : DiskPool} {live : RID → Option (List UInt8)} {issued : List RID} {rid : RID} :
      PoolHeapRun h b live issued → live rid ≠ none →
      PoolHeap.runOn (PoolHeap.deleteTuple rid) b = .ok ((), b') →
      PoolHeapRun h b' (Function.update live rid none) issued
  | get {b b' : DiskPool} {live : RID → Option (List UInt8)} {issued : List RID} {rid : RID}
      {res : Except String (List UInt8)} :
      PoolHeapRun h b live issued → live rid ≠ none →
      PoolHeap.runOn (PoolHeap.getTuple rid) b = .ok (res, b') → PoolHeapRun h b' live issued
  | scan {b b' : DiskPool} {live : RID → Option (List UInt8)} {issued : List RID}
      {res : Option (Except String (List (RID × List UInt8)))} :
      PoolHeapRun h b live issued → PoolHeap.scanAll h b = .ok (res, b') →
      PoolHeapRun h b' live issued
  /-- The pool is flushed, the process ends, and a new one opens the file. -/
  | restart {b b' : DiskPool} {live : RID → Option (List UInt8)} {issued : List RID}
      (poolSize k : Nat) :
      PoolHeapRun h b live issued → 2 ≤ poolSize → b.flushAllPages = .ok b' →
      PoolHeapRun h
        (DiskPool.create poolSize (DiskManager.create b'.diskManager.dbIo.file) k) live issued

/-- A store mirrors the pool, and the heap is the map there. -/
def PoolHeapInv (h : TableHeap) (b : DiskPool) (live : RID → Option (List UInt8))
    (issued : List RID) : Prop :=
  ∃ (s : DiskCacheState) (store : PageStore TablePage) (poolSize : Nat),
    s.pool = b ∧ 2 ≤ poolSize ∧ Client codec [] poolSize s store (fun _ => 0) [] ∧
      HeapInv h store live issued

/-- **A method on the pool** does what it does on the store. -/
theorem Client.runOn {α : Type} {poolSize : Nat} {s : DiskCacheState}
    {store : PageStore TablePage} (h : Client codec [] poolSize s store (fun _ => 0) [])
    (hsize : 2 ≤ poolSize) {prog : PageProg TablePage α} {a : α} {store' : PageStore TablePage}
    (hrun : prog.runStore .blank store = (a, store')) (hok : prog.Ok codec 2 store []) :
    ∃ s', PoolHeap.runOn prog s.pool = .ok (a, s'.pool) ∧
      Client codec [] poolSize s' store' (fun _ => 0) [] := by
  obtain ⟨s', ptr', hpool, h'⟩ := prog.runPool_eq (n := 2) hsize (by decide) h hok
  rw [ofPage_zero, hrun] at hpool h'
  exact ⟨s', hpool, h'.sound, h'.mirrors, h'.pins, h'.poolSize⟩

/-- A page the pool mirrors is the bytes of a frame. -/
theorem Mirrors.inFrame {s : DiskCacheState} {store : PageStore TablePage}
    (h : Mirrors codec s store) {p : PageId} (hp : 0 ≤ p ∧ p < store.nextPageId) :
    InFrame (store.pages p) := by
  rw [h.pages p ((h.live p).mpr hp)]
  exact inFrame_ofPage _

theorem Client.pageFuel {poolSize : Nat} {s : DiskCacheState} {store : PageStore TablePage}
    (h : Client codec [] poolSize s store (fun _ => 0) []) :
    PoolHeap.pageFuel s.pool = TableHeap.pageFuel store := by
  rw [PoolHeap.pageFuel, ← h.mirrors.next, TableHeap.pageFuel]

namespace PoolHeapInv

variable {h : TableHeap} {b : DiskPool} {live : RID → Option (List UInt8)} {issued : List RID}

theorem insert (hinv : PoolHeapInv h b live issued) {tuple : List UInt8}
    (hpos : 1 ≤ tuple.length) (hlen : tuple.length ≤ 4076)
    (hid : b.diskManager.nextPageId + 1 < 2 ^ 31) :
    ∃ rid b', PoolHeap.insertTuple h tuple b = .ok (some (some rid), b') ∧ rid ∉ issued ∧
      PoolHeapInv h b' (Function.update live rid (some tuple)) (rid :: issued) := by
  obtain ⟨s, store, poolSize, rfl, hsize, hclient, hheap⟩ := hinv
  rw [← hclient.mirrors.next] at hid
  have hlt : store.nextPageId < 2 ^ 31 := Int.lt_of_lt_of_le (Int.lt_succ _) (Int.le_of_lt hid)
  obtain ⟨rid, store', hins, hnew, -, hheap'⟩ := hheap.insert hlt hpos hlen
  obtain ⟨chain, hrep, -, -, -⟩ := hheap
  have hok : (PoolHeap.insertFrom tuple (TableHeap.pageFuel store) h.firstPageId).Ok codec 2
      store [] :=
    PoolHeap.ok_insertFrom (Nat.le_refl 2) hid hrep.linked hrep.length_lt
      fun e he => ⟨hrep.allocated e he, hclient.mirrors.inFrame (hrep.allocated e he)⟩
  obtain ⟨s', hrun, hclient'⟩ := hclient.runOn hsize (PoolHeap.runStore_insertFrom hins) hok
  refine ⟨rid, s'.pool, ?_, hnew, s', store', poolSize, rfl, hsize, hclient', hheap'⟩
  rw [PoolHeap.insertTuple, hclient.pageFuel]
  exact hrun

theorem delete (hinv : PoolHeapInv h b live issued) {rid : RID} (hrid : live rid ≠ none) :
    ∃ b', PoolHeap.runOn (PoolHeap.deleteTuple rid) b = .ok ((), b') ∧
      PoolHeapInv h b' (Function.update live rid none) issued := by
  obtain ⟨s, store, poolSize, rfl, hsize, hclient, hheap⟩ := hinv
  have hheap' := (hheap.delete hrid).2
  obtain ⟨chain, hrep, -, hlive, -⟩ := hheap
  obtain ⟨bytes, hbytes⟩ := Option.ne_none_iff_exists'.mp hrid
  rw [hlive] at hbytes
  obtain ⟨slots, hmem, hslot, -⟩ := HeapChain.tupleAt_eq_some hbytes
  obtain ⟨next, hpage⟩ := hrep.linked.pageRep hmem
  have halloc := hrep.allocated _ hmem
  have hok : (PoolHeap.deleteTuple rid).Ok codec 2 store [] :=
    PoolHeap.ok_deleteTuple (Nat.le_succ 1) halloc (hclient.mirrors.inFrame halloc) hpage
      (List.getElem?_eq_some_iff.mp hslot).1
  obtain ⟨s', hrun, hclient'⟩ := hclient.runOn hsize (PoolHeap.runStore_deleteTuple store rid) hok
  exact ⟨s'.pool, hrun, s', _, poolSize, rfl, hsize, hclient', hheap'⟩

theorem get (hinv : PoolHeapInv h b live issued) {rid : RID} {bytes : List UInt8}
    (hbytes : live rid = some bytes) :
    ∃ b', PoolHeap.runOn (PoolHeap.getTuple rid) b = .ok (.ok bytes, b') ∧
      PoolHeapInv h b' live issued := by
  obtain ⟨s, store, poolSize, rfl, hsize, hclient, hheap⟩ := hinv
  obtain ⟨chain, hrep, -, hlive, -⟩ := id hheap
  rw [hlive] at hbytes
  have hok : (PoolHeap.getTuple rid).Ok codec 2 store [] :=
    PoolHeap.ok_getTuple (Nat.le_succ 1) (PoolHeap.allocated_of_live hrep hbytes)
  have hget : (PoolHeap.getTuple rid).runStore .blank store = (.ok bytes, store) := by
    rw [PoolHeap.runStore_getTuple, hrep.getTuple hbytes]
  obtain ⟨s', hrun, hclient'⟩ := hclient.runOn hsize hget hok
  exact ⟨s'.pool, hrun, s', store, poolSize, rfl, hsize, hclient', hheap⟩

theorem scan (hinv : PoolHeapInv h b live issued) :
    ∃ rows b', PoolHeap.scanAll h b = .ok (some (.ok rows), b') ∧
      (rows.map Prod.fst).Nodup ∧ (∀ rid bytes, (rid, bytes) ∈ rows ↔ live rid = some bytes) ∧
      PoolHeapInv h b' live issued := by
  obtain ⟨s, store, poolSize, rfl, hsize, hclient, hheap⟩ := hinv
  obtain ⟨chain, hrep, -, hlive, -⟩ := id hheap
  obtain ⟨hstore, hok⟩ := PoolHeap.scan_spec hrep (n := 2) (Nat.le_succ 1)
  obtain ⟨s', hrun, hclient'⟩ := hclient.runOn hsize hstore hok
  refine ⟨PoolHeap.rowsOf chain chain.liveRids, s'.pool, ?_, ?_, fun rid bytes => ?_,
    s', store, poolSize, rfl, hsize, hclient', hheap⟩
  · rw [PoolHeap.scanAll, hclient.pageFuel]
    exact hrun
  · have hids : (PoolHeap.rowsOf chain chain.liveRids).map Prod.fst = chain.liveRids := by
      rw [PoolHeap.rowsOf, List.map_map]
      exact List.map_id _
    rw [hids]
    exact hrep.nodup_liveRids
  · rw [hlive, PoolHeap.rowsOf, List.mem_map]
    constructor
    · rintro ⟨rid', hmem, heq⟩
      obtain ⟨rfl, rfl⟩ := Prod.mk.inj heq
      obtain ⟨bytes, hbytes⟩ :=
        Option.ne_none_iff_exists'.mp ((HeapChain.mem_liveRids hrep.nodup rid').mp hmem)
      rw [hbytes, Option.getD_some]
    · intro hbytes
      have hmem : rid ∈ chain.liveRids :=
        (HeapChain.mem_liveRids hrep.nodup rid).mpr (by rw [hbytes]; exact Option.some_ne_none _)
      exact ⟨rid, hmem, by rw [hbytes, Option.getD_some]⟩

theorem restart (hinv : PoolHeapInv h b live issued) {poolSize' : Nat} (k : Nat)
    (hsize' : 2 ≤ poolSize') {b' : DiskPool} (hflush : b.flushAllPages = .ok b') :
    PoolHeapInv h (DiskPool.create poolSize' (DiskManager.create b'.diskManager.dbIo.file) k)
      live issued := by
  obtain ⟨s, store, poolSize, rfl, -, hclient, hheap⟩ := hinv
  exact ⟨_, store, poolSize', rfl, hsize', hclient.restart poolSize' k hflush, hheap⟩

theorem create {poolSize : Nat} (k : Nat) (hsize : 2 ≤ poolSize) :
    ∃ h b, PoolHeap.runOn PoolHeap.create
        (DiskPool.create poolSize (DiskManager.create []) k) = .ok (.ok h, b) ∧
      b.diskManager.nextPageId = 1 ∧ PoolHeapInv h b (fun _ => none) [] := by
  have hclient : Client codec [] poolSize (DiskCacheState.create poolSize k) emptyStore
      (fun _ => 0) [] := client_create codec poolSize k _ emptyStore rfl
  obtain ⟨s', hrun, hclient'⟩ := hclient.runOn hsize (PoolHeap.runStore_create emptyStore)
    (PoolHeap.ok_create (Nat.le_succ 1) (by decide))
  exact ⟨_, s'.pool, hrun, hclient'.mirrors.next.symm, s', _, poolSize, rfl, hsize, hclient',
    .create emptyStore_ok⟩

end PoolHeapInv

theorem PoolHeapRun.inv {h : TableHeap} {b : DiskPool} {live : RID → Option (List UInt8)}
    {issued : List RID} (hrun : PoolHeapRun h b live issued) : PoolHeapInv h b live issued := by
  induction hrun with
  | create hsize hcreate =>
    obtain ⟨h', b', hcreate', -, hinv⟩ := PoolHeapInv.create _ hsize
    obtain ⟨hh, rfl⟩ := Prod.mk.inj (Except.ok.inj (hcreate'.symm.trans hcreate))
    exact Except.ok.inj hh ▸ hinv
  | insert _ hpos hlen hid hins ih =>
    obtain ⟨rid, b', hins', -, hinv⟩ := ih.insert hpos hlen hid
    obtain ⟨hrid, rfl⟩ := Prod.mk.inj (Except.ok.inj (hins'.symm.trans hins))
    obtain rfl := Option.some.inj (Option.some.inj hrid)
    exact hinv
  | delete _ hlive hdel ih =>
    obtain ⟨b', hdel', hinv⟩ := ih.delete hlive
    obtain ⟨-, rfl⟩ := Prod.mk.inj (Except.ok.inj (hdel'.symm.trans hdel))
    exact hinv
  | get _ hlive hget ih =>
    obtain ⟨bytes, hbytes⟩ := Option.ne_none_iff_exists'.mp hlive
    obtain ⟨b', hget', hinv⟩ := ih.get hbytes
    obtain ⟨-, rfl⟩ := Prod.mk.inj (Except.ok.inj (hget'.symm.trans hget))
    exact hinv
  | scan _ hscan ih =>
    obtain ⟨rows, b', hscan', -, -, hinv⟩ := ih.scan
    obtain ⟨-, rfl⟩ := Prod.mk.inj (Except.ok.inj (hscan'.symm.trans hscan))
    exact hinv
  | restart poolSize k _ hsize hflush ih => exact ih.restart k hsize hflush

end OneBase
