import Mathlib.Data.List.Nodup
import Mathlib.Data.List.Perm.Subperm
import OneBase.Storage.PageStore
import OneBase.Storage.TablePage

/-!
# Table heaps (`storage/table/table_heap.cpp`)

A table heap is a chain of table pages, linked by their next-page ids. An
insertion goes to the first page with room and appends a page when there is
none. The iterator scans forward for the next slot whose length is not zero.

The buffer pool is a `PageStore`: it never runs out of frames, so the branches
for a null page pointer do not appear. The loops over the page chain take fuel,
one unit for each page; a heap in a store with `n` pages is called with `n + 1`.

- `Chain s p chain`: the pages from `p` on, with their tuples.
- `HeapRep`: a heap whose chain does not repeat a page.
- `Adds`: how an insertion changes the chain.
- `HeapRep.insertTuple`, `HeapRep.getTuple`, `HeapRep.deleteTuple`: the
  operations, with everything else in the store unchanged.
-/

namespace OneBase

open Cpp PageStore TablePage

/-- The member `first_page_id_`; the pool is passed to the operations. -/
structure TableHeap where
  firstPageId : PageId
  deriving DecidableEq

namespace TableHeap

/-- The constructor. -/
def create (s : PageStore TablePage) : TableHeap × PageStore TablePage :=
  let (pageId, s) := s.newPage .blank
  let s := s.setPage pageId (.init invalidPageId)
  (⟨pageId⟩, s.unpinPage pageId)

/-- The branch of `InsertTuple` that appends a page to the last one, `tablePage`
(table_heap.cpp:30–47). -/
def appendPage (tuple : List UInt8) (s : PageStore TablePage) (pageId : PageId)
    (tablePage : TablePage) : Option RID × PageStore TablePage :=
  let (newPageId, s) := s.newPage .blank
  let newTablePage := TablePage.init invalidPageId
  let s := s.setPage pageId (tablePage.setNextPageId newPageId)
  let s := s.unpinPage pageId
  let (newSlot, newTablePage) := newTablePage.insertTuple tuple
  let s := (s.setPage newPageId newTablePage).unpinPage newPageId
  (newSlot.map fun slot => ⟨newPageId, slot⟩, s)

/-- The loop of `InsertTuple` (table_heap.cpp:18–52). -/
def insertFrom (tuple : List UInt8) :
    Nat → PageStore TablePage → PageId → Option (Option RID × PageStore TablePage)
  | 0, _, _ => none
  | fuel + 1, s, pageId =>
    if pageId = invalidPageId then some (none, s)
    else
      let (tablePage, s) := s.fetchPage pageId
      match tablePage.insertTuple tuple with
      | (some slot, tablePage) =>
        some (some ⟨pageId, slot⟩, (s.setPage pageId tablePage).unpinPage pageId)
      | (none, tablePage) =>
        let nextPageId := tablePage.getNextPageId
        if nextPageId = invalidPageId then some (appendPage tuple s pageId tablePage)
        else insertFrom tuple fuel (s.unpinPage pageId) nextPageId

/-- Fuel for a walk over the pages of the store. -/
def pageFuel (s : PageStore TablePage) : Nat := s.nextPageId.toNat + 1

/-- Fuel for a walk over the tuples of the store; a page has at most 1020 slots. -/
def tupleFuel (s : PageStore TablePage) : Nat := 1020 * pageFuel s

/-- Model of `InsertTuple`, on the bytes of the tuple. -/
def insertTuple (h : TableHeap) (s : PageStore TablePage) (tuple : List UInt8) :
    Option (Option RID × PageStore TablePage) :=
  insertFrom tuple (pageFuel s) s h.firstPageId

/-- Model of `GetTuple`: the bytes of the tuple. -/
def getTuple (s : PageStore TablePage) (rid : RID) : List UInt8 × PageStore TablePage :=
  let (tablePage, s) := s.fetchPage rid.pageId
  (tablePage.getTuple rid.slotNum, s.unpinPage rid.pageId)

/-- Model of `DeleteTuple`. -/
def deleteTuple (s : PageStore TablePage) (rid : RID) : PageStore TablePage :=
  let (tablePage, s) := s.fetchPage rid.pageId
  (s.setPage rid.pageId (tablePage.deleteTuple rid.slotNum)).unpinPage rid.pageId

/-! ## The iterator -/

/-- Model of `End`. -/
def endRid : RID := ⟨invalidPageId, 0⟩

/-- The loop over the slots of one page: the first slot of non-zero length among
the `k` slots from `slot` on. -/
def findSlot (p : TablePage) (slot : Nat) : Nat → Option Nat
  | 0 => none
  | k + 1 => if p.getTupleSize slot > 0 then some slot else findSlot p (slot + 1) k

/-- The loop over the pages that `Begin` and `operator++` share. -/
def advance : Nat → PageStore TablePage → PageId → Nat → Option (RID × PageStore TablePage)
  | 0, _, _, _ => none
  | fuel + 1, s, pageId, slot =>
    if pageId = invalidPageId then some (endRid, s)
    else
      let (tablePage, s) := s.fetchPage pageId
      match findSlot tablePage slot (tablePage.getNumTuples - slot) with
      | some slot => some (⟨pageId, slot⟩, s.unpinPage pageId)
      | none =>
        let nextPageId := tablePage.getNextPageId
        advance fuel (s.unpinPage pageId) nextPageId 0

/-- Model of `Begin`. -/
def begin (h : TableHeap) (s : PageStore TablePage) : Option (RID × PageStore TablePage) :=
  advance (pageFuel s) s h.firstPageId 0

/-- Model of `operator++`. -/
def next (s : PageStore TablePage) (rid : RID) : Option (RID × PageStore TablePage) :=
  advance (pageFuel s) s rid.pageId ((rid.slotNum + 1) % 2 ^ 16)

/-- The loop `for (auto it = Begin(); it != End(); ++it)` from `rid` on: the RIDs
it visits. -/
def walkFrom : Nat → PageStore TablePage → RID → Option (List RID × PageStore TablePage)
  | 0, _, _ => none
  | fuel + 1, s, rid =>
    if rid = endRid then some ([], s)
    else
      match next s rid with
      | none => none
      | some (rid', s) =>
        match walkFrom fuel s rid' with
        | none => none
        | some (rids, s) => some (rid :: rids, s)

/-- The walk from `Begin` to `End`. -/
def walk (fuel : Nat) (h : TableHeap) (s : PageStore TablePage) :
    Option (List RID × PageStore TablePage) :=
  match h.begin s with
  | none => none
  | some (rid, s) => walkFrom fuel s rid

end TableHeap

/-! ## What a heap holds -/

/-- The pages of a heap in chain order, each with its tuples by slot; a deleted
slot is empty. -/
abbrev HeapChain := List (PageId × List (List UInt8))

/-- From page `p` on, the store holds the chain. -/
def Chain (s : PageStore TablePage) : PageId → HeapChain → Prop
  | p, [] => p = invalidPageId
  | p, (id, slots) :: rest =>
    p = id ∧ id ≠ invalidPageId ∧ ∃ next, PageRep (s.pages id) next slots ∧ Chain s next rest

namespace HeapChain

/-- The live tuple at a RID. -/
def tupleAt : HeapChain → RID → Option (List UInt8)
  | [], _ => none
  | (id, slots) :: rest, rid =>
    if rid.pageId = id then slots[rid.slotNum]?.filter (· ≠ [])
    else tupleAt rest rid

/-- The slot exists, live or deleted. -/
def Used (chain : HeapChain) (rid : RID) : Prop :=
  ∃ slots, (rid.pageId, slots) ∈ chain ∧ rid.slotNum < slots.length

/-- The chain after the slot at `rid` was emptied. -/
def deleteAt (chain : HeapChain) (rid : RID) : HeapChain :=
  chain.map fun e => if e.1 = rid.pageId then (e.1, e.2.set rid.slotNum []) else e

/-- The chain with other bytes in the slot at `rid`. -/
def setAt (chain : HeapChain) (rid : RID) (bytes : List UInt8) : HeapChain :=
  chain.map fun e => if e.1 = rid.pageId then (e.1, e.2.set rid.slotNum bytes) else e

/-- The live slots from number `k` on. -/
def liveSlots : List (List UInt8) → Nat → List Nat
  | [], _ => []
  | bytes :: slots, k =>
    if bytes = [] then liveSlots slots (k + 1) else k :: liveSlots slots (k + 1)

/-- The live RIDs in page order, then slot order. -/
def liveRids (chain : HeapChain) : List RID :=
  chain.flatMap fun e => (liveSlots e.2 0).map fun slot => ⟨e.1, slot⟩

end HeapChain

/-- An insertion into the first page with room, or into a new page at the end. -/
inductive Adds (tuple : List UInt8) (fresh : PageId) : HeapChain → RID → HeapChain → Prop where
  | here {id : PageId} {slots : List (List UInt8)} {rest : HeapChain} :
      Adds tuple fresh ((id, slots) :: rest) ⟨id, slots.length⟩ ((id, slots ++ [tuple]) :: rest)
  | append {e : PageId × List (List UInt8)} :
      Adds tuple fresh [e] ⟨fresh, 0⟩ [e, (fresh, [tuple])]
  | skip {e : PageId × List (List UInt8)} {rest rest' : HeapChain} {rid : RID} :
      Adds tuple fresh rest rid rest' → Adds tuple fresh (e :: rest) rid (e :: rest')

/-- The heap is the given chain: it has a page, repeats none, and all its pages
were handed out by the store. -/
structure HeapRep (h : TableHeap) (s : PageStore TablePage) (chain : HeapChain) : Prop where
  linked : Chain s h.firstPageId chain
  nonempty : chain ≠ []
  nodup : (chain.map Prod.fst).Nodup
  allocated : ∀ e ∈ chain, 0 ≤ e.1 ∧ e.1 < s.nextPageId

/-! ## The tuples of a chain -/

namespace Adds

variable {tuple : List UInt8} {fresh : PageId} {chain chain' : HeapChain} {rid : RID}

/-- The pages stay, with the fresh one at the end if it was needed. -/
theorem ids (h : Adds tuple fresh chain rid chain') :
    chain'.map Prod.fst = chain.map Prod.fst ∨
      chain'.map Prod.fst = chain.map Prod.fst ++ [fresh] := by
  induction h with
  | here => exact .inl rfl
  | append => exact .inr rfl
  | skip _ ih =>
    rcases ih with ih | ih
    · exact .inl (by simp [ih])
    · exact .inr (by simp [ih])

/-- The new tuple is on a page of the chain or on the fresh one. -/
theorem pageId_mem (h : Adds tuple fresh chain rid chain') :
    rid.pageId ∈ chain.map Prod.fst ∨ rid.pageId = fresh := by
  induction h with
  | here => exact .inl List.mem_cons_self
  | append => exact .inr rfl
  | skip _ ih => exact ih.imp_left (List.mem_cons_of_mem _)

/-- In a chain without repetitions, the new tuple is not on a page that was
skipped. -/
theorem pageId_ne {e : PageId × List (List UInt8)} (h : Adds tuple fresh chain rid chain')
    (hnodup : ((e :: chain).map Prod.fst).Nodup) (hfresh : fresh ∉ (e :: chain).map Prod.fst) :
    rid.pageId ≠ e.1 := by
  intro heq
  rcases h.pageId_mem with hmem | hmem
  · exact (List.nodup_cons.mp hnodup).1 (heq ▸ hmem)
  · exact hfresh (by simp [← hmem, heq])

/-- **The new tuple is at its RID**, and every other tuple stays where it is. A
tuple without bytes counts as deleted. -/
theorem tupleAt (h : Adds tuple fresh chain rid chain')
    (hnodup : (chain.map Prod.fst).Nodup) (hfresh : fresh ∉ chain.map Prod.fst) (r : RID) :
    HeapChain.tupleAt chain' r =
      if r = rid then (some tuple).filter (· ≠ []) else HeapChain.tupleAt chain r := by
  induction h with
  | @here id slots rest =>
    obtain ⟨page, slot⟩ := r
    by_cases hpage : page = id
    · subst hpage
      simp only [HeapChain.tupleAt, if_true, RID.mk.injEq, true_and]
      by_cases hslot : slot = slots.length
      · subst hslot
        simp
      · rw [if_neg hslot]
        by_cases hlt : slot < slots.length
        · rw [List.getElem?_append_left hlt]
        · have hlong : (slots ++ [tuple]).length ≤ slot := by
            simp only [List.length_append, List.length_singleton]
            omega
          rw [List.getElem?_eq_none hlong, List.getElem?_eq_none (Nat.le_of_not_lt hlt)]
    · simp [HeapChain.tupleAt, hpage]
  | @append e =>
    have hne : fresh ≠ e.1 := fun heq => hfresh (by simp [heq])
    obtain ⟨page, slot⟩ := r
    simp only [HeapChain.tupleAt, RID.mk.injEq]
    by_cases hpage : page = e.1
    · subst hpage
      simp [Ne.symm hne]
    · by_cases hfr : page = fresh
      · subst hfr
        cases slot <;> simp [hpage]
      · simp [hpage, hfr]
  | @skip e rest rest' rid hadds ih =>
    have hne := hadds.pageId_ne hnodup hfresh
    simp only [HeapChain.tupleAt]
    by_cases hpage : r.pageId = e.1
    · have hr : r ≠ rid := by
        rintro rfl
        exact hne hpage
      simp [hpage, hr]
    · rw [if_neg hpage, if_neg hpage]
      exact ih (List.nodup_cons.mp hnodup).2 fun hmem => hfresh (List.mem_cons_of_mem _ hmem)

/-- **The RID is new**: the slot did not exist, and it is the only one that was
added. -/
theorem used (h : Adds tuple fresh chain rid chain')
    (hnodup : (chain.map Prod.fst).Nodup) (hfresh : fresh ∉ chain.map Prod.fst) :
    ¬ chain.Used rid ∧ ∀ r, chain'.Used r ↔ chain.Used r ∨ r = rid := by
  induction h with
  | @here id slots rest =>
    have hnotin := (List.nodup_cons.mp hnodup).1
    refine ⟨?_, fun r => ?_⟩
    · rintro ⟨slots', hmem, hlt⟩
      rcases List.mem_cons.mp hmem with heq | hmem
      · obtain rfl := (Prod.mk.inj heq).2
        exact absurd hlt (Nat.lt_irrefl _)
      · exact hnotin (List.mem_map.mpr ⟨_, hmem, rfl⟩)
    · obtain ⟨page, slot⟩ := r
      constructor
      · rintro ⟨slots', hmem, hlt⟩
        rcases List.mem_cons.mp hmem with heq | hmem
        · obtain ⟨rfl, rfl⟩ := Prod.mk.inj heq
          rw [List.length_append, List.length_singleton] at hlt
          rcases Nat.lt_succ_iff_lt_or_eq.mp hlt with hlt | rfl
          · exact .inl ⟨slots, List.mem_cons_self, hlt⟩
          · exact .inr rfl
        · exact .inl ⟨slots', List.mem_cons_of_mem _ hmem, hlt⟩
      · rintro (⟨slots', hmem, hlt⟩ | heq)
        · rcases List.mem_cons.mp hmem with heq | hmem
          · obtain ⟨rfl, rfl⟩ := Prod.mk.inj heq
            exact ⟨_, List.mem_cons_self, by simp at hlt ⊢; omega⟩
          · exact ⟨slots', List.mem_cons_of_mem _ hmem, hlt⟩
        · obtain ⟨rfl, rfl⟩ := RID.mk.inj heq
          exact ⟨_, List.mem_cons_self, by simp⟩
  | @append e =>
    refine ⟨?_, fun r => ?_⟩
    · rintro ⟨slots', hmem, -⟩
      exact hfresh (List.mem_map.mpr ⟨_, hmem, rfl⟩)
    · obtain ⟨page, slot⟩ := r
      constructor
      · rintro ⟨slots', hmem, hlt⟩
        rcases List.mem_cons.mp hmem with heq | hmem
        · exact .inl ⟨slots', List.mem_singleton.mpr heq, hlt⟩
        · obtain ⟨rfl, rfl⟩ := Prod.mk.inj (List.mem_singleton.mp hmem)
          simp only [List.length_singleton, Nat.lt_one_iff] at hlt
          exact .inr (by rw [hlt])
      · rintro (⟨slots', hmem, hlt⟩ | heq)
        · exact ⟨slots', List.mem_cons.mpr (.inl (List.mem_singleton.mp hmem)), hlt⟩
        · obtain ⟨rfl, rfl⟩ := RID.mk.inj heq
          exact ⟨[tuple], List.mem_cons_of_mem _ List.mem_cons_self, by simp⟩
  | @skip e rest rest' rid hadds ih =>
    have hne := hadds.pageId_ne hnodup hfresh
    obtain ⟨hnew, hiff⟩ := ih (List.nodup_cons.mp hnodup).2
      fun hmem => hfresh (List.mem_cons_of_mem _ hmem)
    -- a slot of a longer chain is on its first page or in the rest
    have hcons : ∀ (l : HeapChain) (r : RID), HeapChain.Used (e :: l) r ↔
        (r.pageId = e.1 ∧ r.slotNum < e.2.length) ∨ l.Used r := by
      intro l r
      constructor
      · rintro ⟨slots', hmem, hlt⟩
        rcases List.mem_cons.mp hmem with rfl | hmem
        · exact .inl ⟨rfl, hlt⟩
        · exact .inr ⟨slots', hmem, hlt⟩
      · rintro (⟨hpage, hlt⟩ | ⟨slots', hmem, hlt⟩)
        · exact ⟨e.2, hpage ▸ List.mem_cons_self, hlt⟩
        · exact ⟨slots', List.mem_cons_of_mem _ hmem, hlt⟩
    refine ⟨?_, fun r => ?_⟩
    · rw [hcons]
      rintro (⟨hpage, -⟩ | hused)
      · exact hne hpage
      · exact hnew hused
    · rw [hcons, hcons, hiff, or_assoc]

end Adds

/-! ## Chains -/

/-- A chain only depends on its own pages. -/
theorem Chain.congr {s s' : PageStore TablePage} {p : PageId} {chain : HeapChain}
    (h : Chain s p chain) (hpages : ∀ e ∈ chain, s'.pages e.1 = s.pages e.1) :
    Chain s' p chain := by
  induction chain generalizing p with
  | nil => exact h
  | cons e rest ih =>
    obtain ⟨hp, hvalid, next, hrep, hrest⟩ := h
    refine ⟨hp, hvalid, next, ?_, ih hrest fun e' he' => hpages e' (List.mem_cons_of_mem _ he')⟩
    rw [hpages e List.mem_cons_self]
    exact hrep

/-- What an insertion leaves: pin counts, the pages of others, and a store whose
ids go on from the fresh one if that was used. -/
structure Inserted (s s' : PageStore TablePage) (chain chain' : HeapChain) : Prop where
  pins : s'.pinCount = s.pinCount
  next_le : s.nextPageId ≤ s'.nextPageId
  next_succ : s'.nextPageId ≤ s.nextPageId + 1
  others : ∀ q, q < s.nextPageId → (∀ e ∈ chain, e.1 ≠ q) → s'.pages q = s.pages q
  ids : ∀ e ∈ chain', (∃ e' ∈ chain, e'.1 = e.1) ∨
    e.1 = s.nextPageId ∧ s'.nextPageId = s.nextPageId + 1

/-- A page in front that the insertion passed by. -/
theorem Inserted.cons {s s' : PageStore TablePage} {chain chain' : HeapChain}
    (h : Inserted s s' chain chain') (e : PageId × List (List UInt8)) :
    Inserted s s' (e :: chain) (e :: chain') where
  pins := h.pins
  next_le := h.next_le
  next_succ := h.next_succ
  others := fun q hq hne => h.others q hq fun e he => hne e (List.mem_cons_of_mem _ he)
  ids := fun e' he => by
    rcases List.mem_cons.mp he with rfl | he
    · exact .inl ⟨_, List.mem_cons_self, rfl⟩
    · rcases h.ids e' he with ⟨e'', he'', heq⟩ | hnew
      · exact .inl ⟨e'', List.mem_cons_of_mem _ he'', heq⟩
      · exact .inr hnew

theorem isInt32_invalid : IsInt32 invalidPageId := by
  simp only [IsInt32, invalidPageId]
  omega

namespace TableHeap

/-- The store after `page` was appended behind the page `p`. -/
def linkPage (s : PageStore TablePage) (p : PageId) (page : TablePage) : PageStore TablePage where
  pages := Function.update (Function.update s.pages p ((s.pages p).setNextPageId s.nextPageId))
    s.nextPageId page
  nextPageId := s.nextPageId + 1
  pinCount := s.pinCount

section LinkPage

variable {s : PageStore TablePage} {p : PageId} {page : TablePage}

/-- The page is appended whether it has room for the tuple or not. -/
theorem appendPage_eq (hok : s.StoreOk) (hp : p < s.nextPageId) {tuple : List UInt8}
    {slot : Option Nat}
    (hinsert : (TablePage.init invalidPageId).insertTuple tuple = (slot, page)) :
    appendPage tuple (s.pinPage p) p (s.pages p) =
      (slot.map fun slot => ⟨s.nextPageId, slot⟩, linkPage s p page) := by
  have hfresh : s.nextPageId ≠ p := (Int.ne_of_lt hp).symm
  simp only [appendPage, newPage, pinPage, setPage, unpinPage, hinsert, linkPage, Prod.mk.injEq,
    PageStore.mk.injEq, true_and]
  refine ⟨?_, ?_⟩
  · rw [Function.update_comm hfresh, Function.update_idem]
  · funext q
    by_cases hq : q = s.nextPageId
    · subst hq
      simp [hfresh, hok.unpinned _ (Int.le_refl _)]
    · by_cases hqp : q = p
      · subst hqp
        simp [hq]
      · simp [hq, hqp]

theorem chain_linkPage (hok : s.StoreOk) (hid : s.nextPageId < 2 ^ 31) (hvalid : p ≠ invalidPageId)
    (hp : p < s.nextPageId) {slots slots' : List (List UInt8)}
    (hrep : PageRep (s.pages p) invalidPageId slots) (hpage : PageRep page invalidPageId slots') :
    Chain (linkPage s p page) p [(p, slots), (s.nextPageId, slots')] := by
  have hfresh : p ≠ s.nextPageId := Int.ne_of_lt hp
  have hfreshId : IsInt32 s.nextPageId := ⟨Int.le_trans (by decide) hok.next_nonneg, hid⟩
  have hfreshValid : s.nextPageId ≠ invalidPageId := by
    intro h
    have := hok.next_nonneg
    rw [h] at this
    exact absurd this (by decide)
  refine ⟨rfl, hvalid, s.nextPageId, ?_, rfl, hfreshValid, invalidPageId, ?_, rfl⟩
  · simpa [linkPage, hfresh] using hrep.setNextPageId hfreshId
  · simpa [linkPage] using hpage

theorem inserted_linkPage (slots slots' : List (List UInt8)) :
    Inserted s (linkPage s p page) [(p, slots)] [(p, slots), (s.nextPageId, slots')] where
  pins := rfl
  next_le := Int.le_of_lt (Int.lt_succ _)
  next_succ := Int.le_refl _
  others := fun q hq hne => by
    have hqp : q ≠ p := Ne.symm (hne (p, slots) List.mem_cons_self)
    simp [linkPage, hqp, Int.ne_of_lt hq]
  ids := fun e he => by
    rcases List.mem_cons.mp he with rfl | he
    · exact .inl ⟨_, List.mem_cons_self, rfl⟩
    · rw [List.mem_singleton.mp he]
      exact .inr ⟨rfl, rfl⟩

end LinkPage

/-- **Appending a page** to the last one. -/
theorem appendPage_spec {s : PageStore TablePage} (hok : s.StoreOk)
    (hid : s.nextPageId < 2 ^ 31) {tuple : List UInt8} (hlen : tuple.length ≤ 4076)
    {p : PageId} {slots : List (List UInt8)} (hvalid : p ≠ invalidPageId)
    (hp : p < s.nextPageId) (hrep : PageRep (s.pages p) invalidPageId slots) :
    ∃ rid s', appendPage tuple (s.pinPage p) p (s.pages p) = (some rid, s') ∧
      Adds tuple s.nextPageId [(p, slots)] rid [(p, slots), (s.nextPageId, [tuple])] ∧
      Chain s' p [(p, slots), (s.nextPageId, [tuple])] ∧
      Inserted s s' [(p, slots)] [(p, slots), (s.nextPageId, [tuple])] := by
  obtain ⟨page, hinsert, hpage⟩ := insertTuple_init isInt32_invalid hlen
  refine ⟨⟨s.nextPageId, 0⟩, linkPage s p page, ?_, .append, ?_, ?_⟩
  · rw [appendPage_eq hok hp hinsert]
    rfl
  · exact chain_linkPage hok hid hvalid hp hrep hpage
  · exact inserted_linkPage slots [tuple]

/-- **The insertion loop** puts the tuple into the first page with room, or into a
new page at the end. The induction is on the chain, which the loop follows with
the store unchanged until it writes. -/
theorem insertFrom_spec {s : PageStore TablePage} (hok : s.StoreOk)
    (hid : s.nextPageId < 2 ^ 31) {tuple : List UInt8} (hlen : tuple.length ≤ 4076)
    {chain : HeapChain} : ∀ {p : PageId} {fuel : Nat}, Chain s p chain → chain ≠ [] →
      chain.length ≤ fuel → (chain.map Prod.fst).Nodup →
      (∀ e ∈ chain, e.1 < s.nextPageId) →
      ∃ rid s' chain', insertFrom tuple fuel s p = some (some rid, s') ∧
        Adds tuple s.nextPageId chain rid chain' ∧ Chain s' p chain' ∧
        Inserted s s' chain chain' := by
  induction chain with
  | nil => exact fun _ hne => absurd rfl hne
  | cons e rest ih =>
    obtain ⟨id, slots⟩ := e
    rintro p fuel ⟨rfl, hvalid, next, hrep, hrest⟩ - hfuel hnodup halloc
    obtain ⟨hnotin, hnodup'⟩ := List.nodup_cons.mp hnodup
    have hsep : ∀ e ∈ rest, e.1 ≠ p := by
      rintro e he rfl
      exact hnotin (List.mem_map.mpr ⟨e, he, rfl⟩)
    have hp : p < s.nextPageId := halloc (p, slots) List.mem_cons_self
    obtain ⟨fuel, rfl⟩ : ∃ n, fuel = n + 1 := ⟨fuel - 1, by simp at hfuel; omega⟩
    by_cases hfits : 16 + 4 * slots.length + (tuple.length + 4) ≤ (s.pages p).getFreeSpacePointer
    · -- the tuple goes into this page
      obtain ⟨page, hinsert, hrep'⟩ := hrep.insertTuple hfits
      refine ⟨⟨p, slots.length⟩, s.setPage p page, (p, slots ++ [tuple]) :: rest, ?_, .here,
        ⟨rfl, hvalid, next, by simpa using hrep',
          hrest.congr fun e he => s.pages_setPage_ne page (hsep e he)⟩, ?_⟩
      · simp only [insertFrom, hvalid, if_false, fetchPage, hinsert, unpinPage_setPage_pinPage]
      · refine ⟨rfl, Int.le_refl _, Int.le_of_lt (Int.lt_succ _), fun q _ hq => ?_, fun e he => ?_⟩
        · exact s.pages_setPage_ne page (Ne.symm (hq (p, slots) List.mem_cons_self))
        · rcases List.mem_cons.mp he with rfl | he
          · exact .inl ⟨_, List.mem_cons_self, rfl⟩
          · exact .inl ⟨e, List.mem_cons_of_mem _ he, rfl⟩
    · have hfull : (s.pages p).insertTuple tuple = (none, s.pages p) :=
        hrep.insertTuple_full (by omega)
      cases rest with
      | nil =>
        -- no page has room: a new one is linked to the last
        obtain rfl : next = invalidPageId := hrest
        obtain ⟨rid, s', happend, hadds, hchain, hinserted⟩ :=
          appendPage_spec hok hid hlen hvalid hp hrep
        refine ⟨rid, s', _, ?_, hadds, hchain, hinserted⟩
        simp only [insertFrom, hvalid, if_false, fetchPage, hfull, hrep.next, if_true, happend]
      | cons e' rest' =>
        -- the next page exists: the loop goes on with the store as it was
        have hnext : next ≠ invalidPageId := hrest.1 ▸ hrest.2.1
        obtain ⟨rid, s', chain', hloop, hadds, hchain, hinserted⟩ :=
          ih hrest (by simp) (Nat.le_of_succ_le_succ hfuel) hnodup'
            fun e he => halloc e (List.mem_cons_of_mem _ he)
        have hpage : s'.pages p = s.pages p := hinserted.others p hp hsep
        refine ⟨rid, s', (p, slots) :: chain', ?_, .skip hadds,
          ⟨rfl, hvalid, next, hpage ▸ hrep, hchain⟩, hinserted.cons _⟩
        simp only [insertFrom, hvalid, if_false, fetchPage, hfull, hrep.next, hnext,
          unpinPage_pinPage, hloop]

/-- A tuple of more than 4076 bytes does not fit on any page. -/
theorem insertFrom_long {s : PageStore TablePage} {tuple : List UInt8}
    (hlong : 4076 < tuple.length) {chain : HeapChain} :
    ∀ {p : PageId} {fuel : Nat} {r : Option RID} {s' : PageStore TablePage}, Chain s p chain →
      insertFrom tuple fuel s p = some (r, s') → r = none := by
  induction chain with
  | nil =>
    rintro p fuel r s' rfl hins
    cases fuel with
    | zero => cases hins
    | succ fuel =>
      rw [insertFrom, if_pos rfl] at hins
      exact (Prod.mk.inj (Option.some.inj hins)).1.symm
  | cons e rest ih =>
    obtain ⟨id, slots⟩ := e
    rintro p fuel r s' ⟨rfl, hvalid, next, hrep, hrest⟩ hins
    have hfull : (s.pages p).insertTuple tuple = (none, s.pages p) :=
      hrep.insertTuple_full (by have := hrep.fsp_bounds; omega)
    cases fuel with
    | zero => cases hins
    | succ fuel =>
      simp only [insertFrom, hvalid, if_false, fetchPage, hfull, hrep.next, unpinPage_pinPage]
        at hins
      split at hins
      · -- nor does it fit on a new page
        have hinit := pageRep_init isInt32_invalid
        have hfull' : (TablePage.init invalidPageId).insertTuple tuple =
            (none, TablePage.init invalidPageId) :=
          hinit.insertTuple_full (by have := hinit.fsp_bounds; omega)
        simp only [appendPage, hfull', Option.map_none] at hins
        exact (Prod.mk.inj (Option.some.inj hins)).1.symm
      · exact ih hrest hins

/-- An insertion gives no page id back. -/
theorem insertFrom_next_le {tuple : List UInt8} {fuel : Nat} :
    ∀ {s s' : PageStore TablePage} {p : PageId} {r : Option RID},
      insertFrom tuple fuel s p = some (r, s') → s.nextPageId ≤ s'.nextPageId := by
  induction fuel with
  | zero =>
    intro s s' p r hins
    cases hins
  | succ fuel ih =>
    intro s s' p r hins
    rw [insertFrom] at hins
    split at hins
    · obtain ⟨-, rfl⟩ := Prod.mk.inj (Option.some.inj hins)
      exact Int.le_refl _
    · dsimp only [fetchPage] at hins
      split at hins
      · obtain ⟨-, rfl⟩ := Prod.mk.inj (Option.some.inj hins)
        exact Int.le_refl _
      · split at hins
        · have hs' : s' = (appendPage tuple (s.pinPage p) p _).2 :=
            (congrArg Prod.snd (Option.some.inj hins)).symm
          rw [hs']
          exact Int.le_of_lt (Int.lt_succ _)
        · rw [unpinPage_pinPage] at hins
          exact ih hins

end TableHeap

/-! ## The heap operations -/

namespace HeapRep

variable {h : TableHeap} {s : PageStore TablePage} {chain : HeapChain}

/-- The chain is no longer than the number of pages in the store. -/
theorem length_lt (hrep : HeapRep h s chain) : chain.length < TableHeap.pageFuel s := by
  have hinj : (chain.map fun e => e.1.toNat).Nodup := by
    have : (chain.map fun e => e.1.toNat) = (chain.map Prod.fst).map Int.toNat := by simp
    rw [this]
    refine List.Nodup.map_on (fun p hp q hq heq => ?_) hrep.nodup
    obtain ⟨e, he, rfl⟩ := List.mem_map.mp hp
    obtain ⟨e', he', rfl⟩ := List.mem_map.mp hq
    rw [← Int.toNat_of_nonneg (hrep.allocated e he).1,
      ← Int.toNat_of_nonneg (hrep.allocated e' he').1, heq]
  have hsub : (chain.map fun e => e.1.toNat) ⊆ List.range s.nextPageId.toNat := by
    intro n hn
    obtain ⟨e, he, rfl⟩ := List.mem_map.mp hn
    obtain ⟨h0, hlt⟩ := hrep.allocated e he
    exact List.mem_range.mpr ((Int.toNat_lt_toNat (Int.lt_of_le_of_lt h0 hlt)).mpr hlt)
  have hle := (hinj.subperm hsub).length_le
  rw [List.length_map, List.length_range] at hle
  exact Nat.lt_succ_of_le hle

theorem fresh_notin (hrep : HeapRep h s chain) : s.nextPageId ∉ chain.map Prod.fst := by
  intro hmem
  obtain ⟨e, he, heq⟩ := List.mem_map.mp hmem
  exact absurd (hrep.allocated e he).2 (heq ▸ Int.lt_irrefl _)

/-- Pages of others may change. -/
theorem congr (hrep : HeapRep h s chain) {s' : PageStore TablePage}
    (hpages : ∀ e ∈ chain, s'.pages e.1 = s.pages e.1) (hnext : s.nextPageId ≤ s'.nextPageId) :
    HeapRep h s' chain where
  linked := hrep.linked.congr hpages
  nonempty := hrep.nonempty
  nodup := hrep.nodup
  allocated := fun e he =>
    ⟨(hrep.allocated e he).1, Int.lt_of_lt_of_le (hrep.allocated e he).2 hnext⟩

/-- The pages of the chain, or these and the fresh one. -/
theorem inserted (hrep : HeapRep h s chain) (hok : s.StoreOk) {s' : PageStore TablePage}
    {chain' : HeapChain} (hchain : Chain s' h.firstPageId chain')
    (hids : chain'.map Prod.fst = chain.map Prod.fst ∨
      chain'.map Prod.fst = chain.map Prod.fst ++ [s.nextPageId])
    (hinserted : Inserted s s' chain chain') : HeapRep h s' chain' ∧ s'.StoreOk := by
  refine ⟨⟨hchain, ?_, ?_, fun e he => ?_⟩, ⟨?_, fun p hp => ?_⟩⟩
  · rintro rfl
    rcases hids with hids | hids
    · exact hrep.nonempty (List.map_eq_nil_iff.mp hids.symm)
    · exact List.cons_ne_nil _ _ (List.append_eq_nil_iff.mp hids.symm).2
  · rcases hids with hids | hids
    · rw [hids]
      exact hrep.nodup
    · rw [hids]
      refine List.nodup_append.mpr ⟨hrep.nodup, List.nodup_singleton _, ?_⟩
      rintro p hp q hq rfl
      exact hrep.fresh_notin (List.mem_singleton.mp hq ▸ hp)
  · rcases hinserted.ids e he with ⟨e', he', heq⟩ | ⟨hnew, hnext⟩
    · rw [← heq]
      exact ⟨(hrep.allocated e' he').1,
        Int.lt_of_lt_of_le (hrep.allocated e' he').2 hinserted.next_le⟩
    · rw [hnew, hnext]
      exact ⟨hok.next_nonneg, Int.lt_succ _⟩
  · exact Int.le_trans hok.next_nonneg hinserted.next_le
  · rw [hinserted.pins]
    exact hok.unpinned p (Int.le_trans hinserted.next_le hp)

/-- **Insertion.** A tuple of at most 4076 bytes gets a RID. -/
theorem insertTuple (hrep : HeapRep h s chain) (hok : s.StoreOk) (hid : s.nextPageId < 2 ^ 31)
    {tuple : List UInt8} (hlen : tuple.length ≤ 4076) :
    ∃ rid s' chain', h.insertTuple s tuple = some (some rid, s') ∧
      Adds tuple s.nextPageId chain rid chain' ∧ HeapRep h s' chain' ∧ s'.StoreOk ∧
      Inserted s s' chain chain' := by
  obtain ⟨rid, s', chain', hins, hadds, hchain, hinserted⟩ :=
    TableHeap.insertFrom_spec hok hid hlen hrep.linked hrep.nonempty
      (Nat.le_of_lt hrep.length_lt) hrep.nodup
      fun e he => (hrep.allocated e he).2
  obtain ⟨hrep', hok'⟩ := hrep.inserted hok hchain hadds.ids hinserted
  exact ⟨rid, s', chain', hins, hadds, hrep', hok', hinserted⟩

/-- A tuple that got a RID has at most 4076 bytes. -/
theorem insertTuple_length_le (hrep : HeapRep h s chain) {tuple : List UInt8} {rid : RID}
    {s' : PageStore TablePage} (hins : h.insertTuple s tuple = some (some rid, s')) :
    tuple.length ≤ 4076 := by
  by_contra hlong
  have hnone := TableHeap.insertFrom_long (Nat.lt_of_not_le hlong) hrep.linked hins
  cases hnone

end HeapRep

/-- The page of a live tuple, with its slot. -/
theorem HeapChain.tupleAt_eq_some {chain : HeapChain} {rid : RID} {bytes : List UInt8}
    (h : chain.tupleAt rid = some bytes) :
    ∃ slots, (rid.pageId, slots) ∈ chain ∧ slots[rid.slotNum]? = some bytes ∧ bytes ≠ [] := by
  induction chain with
  | nil => cases h
  | cons e rest ih =>
    rw [tupleAt] at h
    split at h
    · rename_i hpage
      obtain ⟨hslot, hne⟩ := Option.filter_eq_some_iff.mp h
      exact ⟨e.2, hpage ▸ List.mem_cons_self, hslot, by simpa using hne⟩
    · obtain ⟨slots, hmem, hslot, hne⟩ := ih h
      exact ⟨slots, List.mem_cons_of_mem _ hmem, hslot, hne⟩

theorem HeapChain.tupleAt_used {chain : HeapChain} {rid : RID} {bytes : List UInt8}
    (h : chain.tupleAt rid = some bytes) : chain.Used rid := by
  obtain ⟨slots, hmem, hslot, -⟩ := tupleAt_eq_some h
  exact ⟨slots, hmem, (List.getElem?_eq_some_iff.mp hslot).1⟩

/-- A page of the chain holds its tuples. -/
theorem Chain.pageRep {s : PageStore TablePage} {p : PageId} {chain : HeapChain}
    (h : Chain s p chain) {e : PageId × List (List UInt8)} (he : e ∈ chain) :
    ∃ next, PageRep (s.pages e.1) next e.2 := by
  induction chain generalizing p with
  | nil => exact absurd he List.not_mem_nil
  | cons e' rest ih =>
    obtain ⟨-, -, next, hrep, hrest⟩ := h
    rcases List.mem_cons.mp he with rfl | he
    · exact ⟨next, hrep⟩
    · exact ih hrest he

/-- **Reading.** A live tuple is returned as it was inserted, and the store is as
before. -/
theorem HeapRep.getTuple {h : TableHeap} {s : PageStore TablePage} {chain : HeapChain}
    (hrep : HeapRep h s chain) {rid : RID} {bytes : List UInt8}
    (hlive : chain.tupleAt rid = some bytes) : TableHeap.getTuple s rid = (bytes, s) := by
  obtain ⟨slots, hmem, hslot, -⟩ := HeapChain.tupleAt_eq_some hlive
  obtain ⟨next, hpage⟩ := hrep.linked.pageRep hmem
  obtain ⟨hlt, hget⟩ := List.getElem?_eq_some_iff.mp hslot
  simp only [TableHeap.getTuple, fetchPage, unpinPage_pinPage, hpage.getTuple hlt, hget]

/-! ## Writing a slot -/

namespace HeapChain

variable {chain : HeapChain} {rid : RID}

theorem ids_setAt (chain : HeapChain) (rid : RID) (bytes : List UInt8) :
    (chain.setAt rid bytes).map Prod.fst = chain.map Prod.fst := by
  rw [setAt, List.map_map]
  refine List.map_congr_left fun e _ => ?_
  simp only [Function.comp_apply]
  split <;> rfl

theorem ids_deleteAt (chain : HeapChain) (rid : RID) :
    (chain.deleteAt rid).map Prod.fst = chain.map Prod.fst := chain.ids_setAt rid []

theorem used_deleteAt (chain : HeapChain) (rid r : RID) :
    (chain.deleteAt rid).Used r ↔ chain.Used r := by
  constructor
  · rintro ⟨slots, hmem, hlt⟩
    obtain ⟨e, he, heq⟩ := List.mem_map.mp hmem
    split at heq
    · obtain ⟨hpage, rfl⟩ := Prod.mk.inj heq
      exact ⟨e.2, hpage ▸ he, by simpa using hlt⟩
    · exact ⟨slots, heq ▸ he, hlt⟩
  · rintro ⟨slots, hmem, hlt⟩
    by_cases hpage : r.pageId = rid.pageId
    · exact ⟨slots.set rid.slotNum [], List.mem_map.mpr ⟨_, hmem, by simp [hpage]⟩,
        by simpa using hlt⟩
    · exact ⟨slots, List.mem_map.mpr ⟨_, hmem, by simp [hpage]⟩, hlt⟩

/-- Every other tuple stays where it is. -/
theorem tupleAt_setAt_ne (chain : HeapChain) (bytes : List UInt8) {r : RID} (hr : r ≠ rid) :
    (chain.setAt rid bytes).tupleAt r = chain.tupleAt r := by
  induction chain with
  | nil => rfl
  | cons e rest ih =>
    simp only [setAt, List.map_cons, tupleAt] at ih ⊢
    rw [ih]
    by_cases hpage : e.1 = rid.pageId
    · rw [if_pos hpage]
      by_cases hrpage : r.pageId = e.1
      · have hslot : rid.slotNum ≠ r.slotNum := by
          rintro hslot
          obtain ⟨page, slot⟩ := r
          obtain ⟨page', slot'⟩ := rid
          exact hr (congrArg₂ RID.mk (hrpage.trans hpage) hslot.symm)
        simp only [hrpage, if_true, List.getElem?_set_ne hslot]
      · simp only [hrpage, if_false]
    · rw [if_neg hpage]

/-- The tuple in a live slot is replaced. -/
theorem tupleAt_setAt_self {old : List UInt8} (hlive : chain.tupleAt rid = some old)
    (bytes : List UInt8) :
    (chain.setAt rid bytes).tupleAt rid = (some bytes).filter (· ≠ []) := by
  induction chain with
  | nil => cases hlive
  | cons e rest ih =>
    simp only [setAt, List.map_cons, tupleAt] at ih hlive ⊢
    by_cases hpage : rid.pageId = e.1
    · rw [if_pos hpage] at hlive
      have hlt := (List.getElem?_eq_some_iff.mp (Option.filter_eq_some_iff.mp hlive).1).1
      simp only [hpage, if_true, List.getElem?_set_self hlt]
    · rw [if_neg hpage] at hlive
      simp only [Ne.symm hpage, if_false, hpage]
      exact ih hlive

/-- The deleted tuple is gone, and every other tuple stays where it is. -/
theorem tupleAt_deleteAt (chain : HeapChain) (rid r : RID) :
    (chain.deleteAt rid).tupleAt r = if r = rid then none else chain.tupleAt r := by
  split
  · rename_i hr
    subst hr
    cases hlive : (chain.deleteAt r).tupleAt r with
    | none => rfl
    | some bytes =>
      obtain ⟨slots, hmem, hslot, hne⟩ := tupleAt_eq_some hlive
      obtain ⟨e, -, heq⟩ := List.mem_map.mp hmem
      by_cases hpage : e.1 = r.pageId
      · rw [if_pos hpage] at heq
        obtain ⟨-, rfl⟩ := Prod.mk.inj heq
        obtain ⟨hlt, hget⟩ := List.getElem?_eq_some_iff.mp hslot
        rw [List.getElem_set_self] at hget
        exact absurd hget.symm hne
      · rw [if_neg hpage] at heq
        exact absurd (by rw [heq]) hpage
  · rename_i hr
    exact chain.tupleAt_setAt_ne [] hr

end HeapChain

/-- Writing a slot in the store writes it in the chain. -/
theorem Chain.setAt {s : PageStore TablePage} {p : PageId} {chain : HeapChain}
    (h : Chain s p chain) {rid : RID} {bytes : List UInt8} {page : TablePage}
    (hpage : ∀ next slots, (rid.pageId, slots) ∈ chain → PageRep (s.pages rid.pageId) next slots →
      PageRep page next (slots.set rid.slotNum bytes)) :
    Chain (s.setPage rid.pageId page) p (chain.setAt rid bytes) := by
  induction chain generalizing p with
  | nil => exact h
  | cons e rest ih =>
    obtain ⟨hp, hvalid, next, hrep, hrest⟩ := h
    have htail := ih hrest fun next slots hmem => hpage next slots (List.mem_cons_of_mem _ hmem)
    rw [HeapChain.setAt, List.map_cons]
    by_cases heq : e.1 = rid.pageId
    · rw [if_pos heq]
      refine ⟨hp, hvalid, next, ?_, htail⟩
      rw [← heq, pages_setPage_self]
      exact hpage next e.2 (heq ▸ List.mem_cons_self) (heq ▸ hrep)
    · rw [if_neg heq]
      refine ⟨hp, hvalid, next, ?_, htail⟩
      rw [pages_setPage_ne _ _ heq]
      exact hrep

namespace HeapRep

variable {h : TableHeap} {s : PageStore TablePage} {chain : HeapChain} {rid : RID}

/-- Pages are not repeated, so a slot of a page is on the only page of that id. -/
theorem slots_unique (hrep : HeapRep h s chain) {p : PageId} {slots slots' : List (List UInt8)}
    (hmem : (p, slots) ∈ chain) (hmem' : (p, slots') ∈ chain) : slots' = slots :=
  (Prod.mk.inj (List.inj_on_of_nodup_map hrep.nodup hmem' hmem rfl)).2

/-- **Writing the slot of a live tuple.** -/
theorem setAt (hrep : HeapRep h s chain) {bytes : List UInt8} {page : TablePage}
    (hpage : ∀ next slots, (rid.pageId, slots) ∈ chain → PageRep (s.pages rid.pageId) next slots →
      PageRep page next (slots.set rid.slotNum bytes)) :
    HeapRep h (s.setPage rid.pageId page) (chain.setAt rid bytes) := by
  refine ⟨hrep.linked.setAt hpage, ?_, ?_, fun e he => ?_⟩
  · simpa [HeapChain.setAt] using hrep.nonempty
  · rw [HeapChain.ids_setAt]
    exact hrep.nodup
  · have hid : e.1 ∈ chain.map Prod.fst := by
      rw [← HeapChain.ids_setAt chain rid bytes]
      exact List.mem_map.mpr ⟨e, he, rfl⟩
    obtain ⟨e', he', heq⟩ := List.mem_map.mp hid
    rw [← heq]
    exact hrep.allocated e' he'

/-- **Deletion** of a live tuple. -/
theorem deleteTuple (hrep : HeapRep h s chain) {bytes : List UInt8}
    (hlive : chain.tupleAt rid = some bytes) :
    HeapRep h (TableHeap.deleteTuple s rid) (chain.deleteAt rid) ∧
      (TableHeap.deleteTuple s rid).nextPageId = s.nextPageId ∧
      (TableHeap.deleteTuple s rid).pinCount = s.pinCount ∧
      ∀ q, (∀ e ∈ chain, e.1 ≠ q) → (TableHeap.deleteTuple s rid).pages q = s.pages q := by
  obtain ⟨slots, hmem, hslot, -⟩ := HeapChain.tupleAt_eq_some hlive
  have hlt := (List.getElem?_eq_some_iff.mp hslot).1
  have hdel : TableHeap.deleteTuple s rid =
      s.setPage rid.pageId ((s.pages rid.pageId).deleteTuple rid.slotNum) := by
    simp only [TableHeap.deleteTuple, fetchPage, unpinPage_setPage_pinPage]
  rw [hdel]
  refine ⟨hrep.setAt fun next slots' hmem' hpage => ?_, rfl, rfl, fun q hq => ?_⟩
  · obtain rfl := hrep.slots_unique hmem hmem'
    exact hpage.deleteTuple hlt
  · exact pages_setPage_ne _ _ (Ne.symm (hq _ hmem))

end HeapRep

/-- **A new heap** has one page, without tuples. -/
theorem TableHeap.create_spec {s : PageStore TablePage} (hok : s.StoreOk) :
    HeapRep (TableHeap.create s).1 (TableHeap.create s).2 [(s.nextPageId, [])] ∧
      (TableHeap.create s).2.StoreOk ∧
      (TableHeap.create s).2.pinCount = s.pinCount ∧
      (TableHeap.create s).2.nextPageId = s.nextPageId + 1 ∧
      ∀ q, q < s.nextPageId → (TableHeap.create s).2.pages q = s.pages q := by
  have hvalid : s.nextPageId ≠ invalidPageId := by
    intro heq
    have := hok.next_nonneg
    rw [heq] at this
    exact absurd this (by decide)
  have hpins : (TableHeap.create s).2.pinCount = s.pinCount := by
    funext q
    by_cases hq : q = s.nextPageId
    · subst hq
      simp [TableHeap.create, newPage, setPage, unpinPage, hok.unpinned _ (Int.le_refl _)]
    · simp [TableHeap.create, newPage, setPage, unpinPage, hq]
  refine ⟨⟨⟨rfl, hvalid, invalidPageId, ?_, rfl⟩, by simp, by simp, ?_⟩,
    ⟨?_, fun p hp => ?_⟩, hpins, rfl, fun q hq => ?_⟩
  · simpa [TableHeap.create, newPage, setPage, unpinPage] using pageRep_init isInt32_invalid
  · intro e he
    rw [List.mem_singleton.mp he]
    exact ⟨hok.next_nonneg, Int.lt_succ _⟩
  · exact Int.le_trans hok.next_nonneg (Int.le_of_lt (Int.lt_succ _))
  · rw [hpins]
    exact hok.unpinned p (Int.le_trans (Int.le_of_lt (Int.lt_succ _)) hp)
  · simp [TableHeap.create, newPage, setPage, unpinPage, Int.ne_of_lt hq]

/-- The store of a fresh database. -/
def emptyStore : PageStore TablePage where
  pages := fun _ => .blank

theorem emptyStore_ok : emptyStore.StoreOk := ⟨Int.le_refl _, fun _ _ => rfl⟩

end OneBase
