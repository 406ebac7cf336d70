import Mathlib.Algebra.GroupWithZero.Nat
import Mathlib.Data.List.Induction
import OneBase.Storage.HeapWalk
import OneBase.Storage.PageUpdate

/-!
# Updates of a table heap (`TableHeap::UpdateTuple`)

A tuple is updated on its page, so it keeps its RID and the iterator visits it where it was.

- `HeapRep.unique`: the bytes determine the chain.
- `HeapRep.updateTuple`: a tuple that fits in the free space of the page.
- `HeapRep.updateTuple_long`: a longer one is not in the heap afterwards.
-/

namespace OneBase

open Cpp PageStore TablePage

/-- A page is one list of slots only. -/
theorem TablePage.PageRep.unique {p : TablePage} {next next' : PageId}
    {slots slots' : List (List UInt8)} (h : PageRep p next slots) (h' : PageRep p next' slots') :
    next' = next ∧ slots' = slots := by
  have hlen : slots'.length = slots.length := h'.num.symm.trans h.num
  refine ⟨h'.next.symm.trans h.next, List.ext_getElem hlen fun i hi hi' => ?_⟩
  rw [← h'.getTuple hi, h.getTuple hi']

/-- **A heap is one chain only.** -/
theorem HeapRep.unique {h : TableHeap} {s : PageStore TablePage} {chain chain' : HeapChain}
    (hrep : HeapRep h s chain) (hrep' : HeapRep h s chain') : chain' = chain := by
  have hchain : ∀ {chain chain' : HeapChain} {p : PageId}, Chain s p chain → Chain s p chain' →
      chain' = chain := by
    intro chain
    induction chain with
    | nil =>
      rintro (_ | ⟨e', rest'⟩) p hnil hchain'
      · rfl
      · exact absurd (hchain'.1.symm.trans hnil) hchain'.2.1
    | cons e rest ih =>
      rintro (_ | ⟨e', rest'⟩) p ⟨rfl, hvalid, next, hpage, hrest⟩ hchain'
      · exact absurd hchain' hvalid
      · obtain ⟨hid, -, next', hpage', hrest'⟩ := hchain'
        rw [← hid] at hpage'
        obtain ⟨rfl, hslots⟩ := hpage.unique hpage'
        rw [ih hrest hrest', Prod.ext hid.symm hslots]
  exact hchain hrep.linked hrep'.linked

/-- Model of `UpdateTuple`, on the bytes of the tuple; their number is a `uint32_t`. -/
def TableHeap.updateTuple (s : PageStore TablePage) (rid : RID) (newTuple : List UInt8) :
    Bool × PageStore TablePage :=
  let (tablePage, s) := s.fetchPage rid.pageId
  let (success, tablePage) :=
    tablePage.updateTuple rid.slotNum (newTuple.take (newTuple.length % 2 ^ 32))
  (success, (s.setPage rid.pageId tablePage).unpinPage rid.pageId)

theorem TableHeap.updateTuple_eq {s : PageStore TablePage} {rid : RID} {newTuple : List UInt8}
    {success : Bool} {page : TablePage}
    (hpage : (s.pages rid.pageId).updateTuple rid.slotNum
      (newTuple.take (newTuple.length % 2 ^ 32)) = (success, page)) :
    TableHeap.updateTuple s rid newTuple = (success, s.setPage rid.pageId page) := by
  simp only [TableHeap.updateTuple, fetchPage, hpage, unpinPage_setPage_pinPage]

namespace HeapRep

variable {h : TableHeap} {s : PageStore TablePage} {chain : HeapChain} {rid : RID}
  {old newTuple : List UInt8}

/-- **A tuple that fits in the free space** replaces the old one. -/
theorem updateTuple (hrep : HeapRep h s chain) (hlive : chain.tupleAt rid = some old)
    (hfits : newTuple.length ≤ (s.pages rid.pageId).getFreeSpaceRemaining) :
    ∃ page, TableHeap.updateTuple s rid newTuple = (true, s.setPage rid.pageId page) ∧
      HeapRep h (s.setPage rid.pageId page) (chain.setAt rid newTuple) := by
  obtain ⟨slots, hmem, hslot, -⟩ := HeapChain.tupleAt_eq_some hlive
  have hlt := (List.getElem?_eq_some_iff.mp hslot).1
  obtain ⟨next, hpage⟩ : ∃ next, PageRep (s.pages rid.pageId) next slots :=
    hrep.linked.pageRep hmem
  have hbounds := hpage.fsp_bounds
  rw [hpage.getFreeSpaceRemaining] at hfits
  have hroom : 16 + 4 * slots.length + newTuple.length ≤
      (s.pages rid.pageId).getFreeSpacePointer := by
    omega
  obtain ⟨page, hrun, hpage', -⟩ := hpage.updateTuple hlt hroom
  refine ⟨page, TableHeap.updateTuple_eq ?_, hrep.setAt fun next' slots' hmem' hrep' => ?_⟩
  · rw [Nat.mod_eq_of_lt (by omega), List.take_length]
    exact hrun
  · obtain rfl := hrep.slots_unique hmem hmem'
    obtain rfl : next' = next := hrep'.next.symm.trans hpage.next
    exact hpage'

/-- The new tuple takes its bytes from the free space of its page, and of no other. -/
theorem free_updateTuple (hrep : HeapRep h s chain) (hlive : chain.tupleAt rid = some old)
    (hfits : newTuple.length ≤ (s.pages rid.pageId).getFreeSpaceRemaining) (pageId : PageId) :
    ((TableHeap.updateTuple s rid newTuple).2.pages pageId).getFreeSpaceRemaining +
        (if rid.pageId = pageId then newTuple.length else 0) =
      (s.pages pageId).getFreeSpaceRemaining := by
  obtain ⟨slots, hmem, hslot, -⟩ := HeapChain.tupleAt_eq_some hlive
  have hlt := (List.getElem?_eq_some_iff.mp hslot).1
  obtain ⟨next, hpage⟩ : ∃ next, PageRep (s.pages rid.pageId) next slots :=
    hrep.linked.pageRep hmem
  have hbounds := hpage.fsp_bounds
  have hfree := hpage.getFreeSpaceRemaining
  have hroom : 16 + 4 * slots.length + newTuple.length ≤
      (s.pages rid.pageId).getFreeSpacePointer := by
    omega
  obtain ⟨page, hrun, hpage', hfsp, -⟩ := hpage.updateTuple hlt hroom
  have hfree' := hpage'.getFreeSpaceRemaining
  rw [List.length_set] at hfree'
  have htake : newTuple.take (newTuple.length % 2 ^ 32) = newTuple := by
    rw [Nat.mod_eq_of_lt (by omega), List.take_length]
  rw [TableHeap.updateTuple_eq (htake.symm ▸ hrun)]
  by_cases hid : rid.pageId = pageId
  · subst hid
    rw [if_pos rfl, pages_setPage_self]
    omega
  · rw [if_neg hid, Nat.add_zero]
    exact congrArg _ (Function.update_of_ne (Ne.symm hid) _ _)

/-- **A longer tuple** is not in the heap afterwards. -/
theorem updateTuple_long (hrep : HeapRep h s chain) (hlive : chain.tupleAt rid = some old)
    (hlong : (s.pages rid.pageId).getFreeSpaceRemaining < newTuple.length)
    {s' : PageStore TablePage} (hrun : TableHeap.updateTuple s rid newTuple = (true, s'))
    {chain' : HeapChain} (hrep' : HeapRep h s' chain') : chain'.tupleAt rid ≠ some newTuple := by
  intro hnew
  obtain ⟨slots, hmem, hslot, -⟩ := HeapChain.tupleAt_eq_some hlive
  obtain ⟨slots', hmem', hslot', -⟩ := HeapChain.tupleAt_eq_some hnew
  have hlt := (List.getElem?_eq_some_iff.mp hslot).1
  obtain ⟨next, hpage⟩ := hrep.linked.pageRep hmem
  obtain ⟨next', hpage'⟩ := hrep'.linked.pageRep hmem'
  obtain ⟨⟨success, page⟩, hupdate⟩ : ∃ r, (s.pages rid.pageId).updateTuple rid.slotNum
      (newTuple.take (newTuple.length % 2 ^ 32)) = r := ⟨_, rfl⟩
  rw [TableHeap.updateTuple_eq hupdate] at hrun
  obtain ⟨rfl, rfl⟩ := Prod.mk.inj hrun
  rw [pages_setPage_self] at hpage'
  exact hpage.updateTuple_long hlt hlong hupdate hpage' hslot'

end HeapRep

/-- A tuple for which the first page of a heap has room goes there. -/
theorem TableHeap.insertTuple_first {h : TableHeap} {s : PageStore TablePage} {next : PageId}
    {slots : List (List UInt8)} (hne : h.firstPageId ≠ invalidPageId)
    (hpage : PageRep (s.pages h.firstPageId) next slots) {tuple : List UInt8}
    (hroom : tuple.length + 4 ≤ (s.pages h.firstPageId).getFreeSpaceRemaining) :
    ∃ page, h.insertTuple s tuple =
        some (some ⟨h.firstPageId, slots.length⟩, s.setPage h.firstPageId page) ∧
      PageRep page next (slots ++ [tuple]) ∧
      page.getFreeSpaceRemaining + (tuple.length + 4) =
        (s.pages h.firstPageId).getFreeSpaceRemaining := by
  obtain ⟨page, hinsert, hpage', hfree⟩ := hpage.insertTuple_room hroom
  refine ⟨page, ?_, hpage', hfree⟩
  rw [TableHeap.insertTuple, TableHeap.pageFuel, TableHeap.insertFrom, if_neg hne]
  simp only [fetchPage, hinsert, unpinPage_setPage_pinPage]

/-- A page with tuples that fit on it, and the room that is left. -/
theorem exists_rowsPage {slots : List (List UInt8)} :
    (slots.map fun tuple => tuple.length + 4).sum ≤ 4080 →
    ∃ page, PageRep page invalidPageId slots ∧
      page.getFreeSpaceRemaining + (slots.map fun tuple => tuple.length + 4).sum = 4080 := by
  induction slots using List.reverseRecOn with
  | nil =>
    intro _
    exact ⟨_, pageRep_init isInt32_invalid, getFreeSpaceRemaining_init isInt32_invalid⟩
  | append_singleton slots tuple ih =>
    intro hfit
    rw [List.map_append, List.sum_append, List.map_singleton, List.sum_singleton] at hfit ⊢
    obtain ⟨page, hpage, hfree⟩ := ih (by omega)
    have hroom : tuple.length + 4 ≤ page.getFreeSpaceRemaining := by omega
    obtain ⟨page', -, hpage', hfree'⟩ := hpage.insertTuple_room hroom
    exact ⟨page', hpage', by omega⟩

/-- The store with one page. -/
def onePage (page : TablePage) : PageStore TablePage where
  pages := fun _ => page
  nextPageId := 1

theorem onePage_ok (page : TablePage) : (onePage page).StoreOk :=
  ⟨Int.zero_le_ofNat 1, fun _ _ => rfl⟩

/-- A heap of one page. -/
theorem heapRep_onePage {page : TablePage} {slots : List (List UInt8)}
    (hpage : PageRep page invalidPageId slots) : HeapRep ⟨0⟩ (onePage page) [(0, slots)] where
  linked := ⟨rfl, by decide, invalidPageId, hpage, rfl⟩
  nonempty := List.cons_ne_nil _ _
  nodup := List.nodup_singleton _
  allocated := fun e he => by
    rw [List.mem_singleton.mp he]
    exact ⟨Int.le_refl 0, Int.zero_lt_one⟩

end OneBase
