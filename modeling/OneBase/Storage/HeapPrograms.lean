import OneBase.Buffer.PagePrograms
import OneBase.Storage.HeapMap

/-!
# Table heaps as clients of the pool (`storage/table/table_heap.cpp`)

The methods of `TableHeap` with every `NewPage`, `FetchPage` and `UnpinPage`,
the flags they pass, and the branches for null pages.

- `PoolHeap.create`, `insertTuple`, `getTuple`, `deleteTuple`, `begin`, `next`,
  `scan`: the methods, and the loop of a sequential scan.
- `runStore_insertFrom`, …: on a store they are the methods of `TableHeap`.
- `ok_insertFrom`, …: on the chain of a heap they keep to the discipline of the
  pool, with two pins at most.
-/

namespace OneBase

open Cpp PageStore TablePage

/-! ## The bytes of a table page -/

namespace TablePage

/-- A table page as the bytes of its frame. -/
def codec : PageCodec TablePage where
  toPage p := fun i => p.data i
  ofPage data := ⟨fun i => if h : i < pageSize then data ⟨i, h⟩ else 0⟩
  toPage_ofPage data := by
    funext i
    simp only [i.isLt, dif_pos]

/-- Nothing is past the end of the frame. -/
def InFrame (p : TablePage) : Prop := ∀ i, pageSize ≤ i → p.data i = 0

theorem inFrame_ofPage (data : PageData) : InFrame (codec.ofPage data) := by
  intro i hi
  exact dif_neg (Nat.not_lt.mpr hi)

theorem ofPage_toPage {p : TablePage} (h : InFrame p) : codec.ofPage (codec.toPage p) = p := by
  have hdata : (codec.ofPage (codec.toPage p)).data = p.data := by
    funext i
    show (if h : i < pageSize then p.data i else 0) = p.data i
    by_cases hi : i < pageSize
    · rw [dif_pos hi]
    · rw [dif_neg hi, h i (Nat.le_of_not_lt hi)]
  cases p
  exact congrArg TablePage.mk hdata

theorem ofPage_zero : codec.ofPage PageData.zero = blank := by
  show (⟨fun i => if h : i < pageSize then 0 else 0⟩ : TablePage) = ⟨fun _ => 0⟩
  congr 1
  funext i
  split <;> rfl

theorem InFrame.blit {m : Mem} (h : InFrame ⟨m⟩) (off : Nat) (bs : List UInt8)
    (hin : off + bs.length ≤ pageSize) : InFrame ⟨blit m off bs⟩ := by
  intro i hi
  show Cpp.blit m off bs i = 0
  rw [blit_of_disjoint (.inr (Nat.le_trans hin hi))]
  exact h i hi

theorem InFrame.writeLE {m : Mem} (h : InFrame ⟨m⟩) (off k n : Nat)
    (hin : off + k ≤ pageSize) : InFrame ⟨writeLE m off k n⟩ :=
  h.blit _ _ (by rwa [length_bytesOf])

theorem inFrame_init (next : PageId) : InFrame (init next) := by
  have hblank : InFrame blank := fun _ _ => rfl
  have h₁ : InFrame ⟨writeInt32 blank.data 0 next⟩ := InFrame.writeLE hblank _ 4 _ (by decide)
  have h₂ := InFrame.writeLE h₁ 4 4 0 (by decide)
  have h₃ := InFrame.writeLE h₂ 8 4 pageSize (by decide)
  simp only [init, setFreeSpacePointer, setNumTuples, setNextPageId]
  exact h₃

theorem InFrame.setNextPageId {p : TablePage} (h : InFrame p) (next : PageId) :
    InFrame (p.setNextPageId next) := by
  simp only [TablePage.setNextPageId]
  exact InFrame.writeLE h _ 4 _ (by decide)

variable {p : TablePage} {next : PageId} {slots : List (List UInt8)}

/-- A tuple that gets no slot leaves the page as it is. -/
theorem insertTuple_none {p p' : TablePage} {tuple : List UInt8}
    (h : p.insertTuple tuple = (none, p')) : p' = p := by
  rw [TablePage.insertTuple] at h
  split at h
  · exact (Prod.mk.inj h).2.symm
  · cases (Prod.mk.inj h).1

/-- The slot and the bytes of a tuple that fits are in the frame. -/
theorem InFrame.insertTuple (h : InFrame p) (hrep : PageRep p next slots) (tuple : List UInt8) :
    InFrame (p.insertTuple tuple).2 := by
  have hbounds := hrep.fsp_bounds
  by_cases hfits : 16 + 4 * slots.length + (tuple.length + 4) ≤ p.getFreeSpacePointer
  · obtain ⟨newFsp, hnew⟩ : ∃ newFsp, newFsp + tuple.length = p.getFreeSpacePointer :=
      ⟨p.getFreeSpacePointer - tuple.length, by omega⟩
    have hpage : pageSize = 4096 := rfl
    have h₁ := InFrame.writeLE h 8 4 newFsp (by decide)
    have h₂ := InFrame.blit h₁ newFsp tuple (by omega)
    have h₃ := InFrame.writeLE h₂ (16 + 4 * slots.length) 2 newFsp (by omega)
    have h₄ := InFrame.writeLE h₃ (16 + 4 * slots.length + 2) 2 tuple.length (by omega)
    rw [hrep.insertTuple_eq hnew (by omega)]
    exact InFrame.writeLE h₄ 4 4 (slots.length + 1) (by decide)
  · rw [hrep.insertTuple_full (by omega)]
    exact h

theorem InFrame.deleteTuple (h : InFrame p) (hrep : PageRep p next slots) {i : Nat}
    (hi : i < slots.length) : InFrame (p.deleteTuple i) := by
  have hbounds := hrep.fsp_bounds
  have hpage : pageSize = 4096 := rfl
  have hslot : slotOffset i = 16 + 4 * i := slotOffset_of_lt (by omega)
  simp only [TablePage.deleteTuple, setTupleOffsetAtSlot, setTupleLengthAtSlot, hslot]
  exact InFrame.writeLE (InFrame.writeLE h _ 2 0 (by omega)) _ 2 0 (by omega)

end TablePage

/-! ## The methods -/

namespace PoolHeap

open TableHeap (endRid findSlot)

/-- The constructor (table_heap.cpp:6–16). -/
def create : PageProg TablePage (Except String TableHeap) :=
  .newPage fun
  | none => .done (.error "Cannot allocate page for table heap")
  | some pageId =>
    .setPage pageId (.init invalidPageId) (.unpinPage pageId true (.done (.ok ⟨pageId⟩)))

/-- The branch of `InsertTuple` that appends a page (table_heap.cpp:30–47). -/
def appendPage (tuple : List UInt8) (pageId : PageId) (tablePage : TablePage) :
    PageProg TablePage (Option (Option RID)) :=
  .newPage fun
  | none => .unpinPage pageId false (.done (some none))
  | some newPageId =>
    .setPage newPageId (.init invalidPageId) <|
    .setPage pageId (tablePage.setNextPageId newPageId) <|
    .unpinPage pageId true <|
    let (newSlot, newTablePage) := (TablePage.init invalidPageId).insertTuple tuple
    .setPage newPageId newTablePage <|
    .unpinPage newPageId true <|
    .done (some (newSlot.map fun slot => ⟨newPageId, slot⟩))

/-- The loop of `InsertTuple` (table_heap.cpp:18–52); `none` when the fuel ends. -/
def insertFrom (tuple : List UInt8) : Nat → PageId → PageProg TablePage (Option (Option RID))
  | 0, _ => .done none
  | fuel + 1, pageId =>
    if pageId = invalidPageId then .done (some none)
    else
      .fetchPage pageId fun
      | none => .done (some none)
      | some tablePage =>
        match tablePage.insertTuple tuple with
        | (some slot, tablePage) =>
          .setPage pageId tablePage <| .unpinPage pageId true <|
          .done (some (some ⟨pageId, slot⟩))
        | (none, tablePage) =>
          let nextPageId := tablePage.getNextPageId
          if nextPageId = invalidPageId then appendPage tuple pageId tablePage
          else .unpinPage pageId false (insertFrom tuple fuel nextPageId)

/-- Model of `GetTuple` (table_heap.cpp:54–68): the bytes of the tuple. -/
def getTuple (rid : RID) : PageProg TablePage (Except String (List UInt8)) :=
  .fetchPage rid.pageId fun
  | none => .done (.error "Cannot fetch page for GetTuple")
  | some tablePage =>
    .unpinPage rid.pageId false (.done (.ok (tablePage.getTuple rid.slotNum)))

/-- Model of `DeleteTuple` (table_heap.cpp:79–85). -/
def deleteTuple (rid : RID) : PageProg TablePage Unit :=
  .fetchPage rid.pageId fun
  | none => .done ()
  | some tablePage =>
    .setPage rid.pageId (tablePage.deleteTuple rid.slotNum) <|
    .unpinPage rid.pageId true (.done ())

/-- The loop over the pages that `Begin` and `operator++` share
(table_heap.cpp:100–124, 135–157). -/
def advance : Nat → PageId → Nat → PageProg TablePage (Option RID)
  | 0, _, _ => .done none
  | fuel + 1, pageId, slot =>
    if pageId = invalidPageId then .done (some endRid)
    else
      .fetchPage pageId fun
      | none => .done (some endRid)
      | some tablePage =>
        match findSlot tablePage slot (tablePage.getNumTuples - slot) with
        | some slot => .unpinPage pageId false (.done (some ⟨pageId, slot⟩))
        | none => .unpinPage pageId false (advance fuel tablePage.getNextPageId 0)

/-- Model of `Begin`. -/
def begin (h : TableHeap) (fuel : Nat) : PageProg TablePage (Option RID) :=
  advance fuel h.firstPageId 0

/-- Model of `operator++`. -/
def next (fuel : Nat) (rid : RID) : PageProg TablePage (Option RID) :=
  advance fuel rid.pageId ((rid.slotNum + 1) % 2 ^ 16)

/-- The loop `for (; it != End(); ++it)` from `rid` on, with `*it` read each
time: the RIDs and the tuples. An exception of `GetTuple` leaves the loop. -/
def scanFrom (pageFuel : Nat) : Nat → RID →
    PageProg TablePage (Option (Except String (List (RID × List UInt8))))
  | 0, _ => .done none
  | fuel + 1, rid =>
    if rid = endRid then .done (some (.ok []))
    else
      (getTuple rid).bind fun
      | .error e => .done (some (.error e))
      | .ok bytes =>
        (next pageFuel rid).bind fun
        | none => .done none
        | some rid' =>
          (scanFrom pageFuel fuel rid').bind fun
          | none => .done none
          | some (.error e) => .done (some (.error e))
          | some (.ok rows) => .done (some (.ok ((rid, bytes) :: rows)))

/-- A sequential scan of the heap. -/
def scan (h : TableHeap) (pageFuel fuel : Nat) :
    PageProg TablePage (Option (Except String (List (RID × List UInt8)))) :=
  (begin h pageFuel).bind fun
  | none => .done none
  | some rid => scanFrom pageFuel fuel rid

/-! ## On a store -/

open PageProg

theorem runStore_create (s : PageStore TablePage) :
    create.runStore .blank s = (.ok (TableHeap.create s).1, (TableHeap.create s).2) := rfl

theorem runStore_appendPage (tuple : List UInt8) (s : PageStore TablePage) (p : PageId)
    (page : TablePage) :
    (appendPage tuple p page).runStore .blank s =
      (some (TableHeap.appendPage tuple s p page).1, (TableHeap.appendPage tuple s p page).2) := by
  -- the new page is set twice, and only the second time counts
  have hpages : ∀ (pages : PageId → TablePage) (q : PageId) (blank init page page' : TablePage),
      Function.update (Function.update (Function.update (Function.update pages q blank) q init)
        p page) q page' =
      Function.update (Function.update (Function.update pages q blank) p page) q page' := by
    intro pages q blank init page page'
    funext r
    by_cases hrq : r = q
    · subst hrq
      simp only [Function.update_self]
    · by_cases hrp : r = p
      · subst hrp
        simp only [Function.update_of_ne hrq, Function.update_self]
      · simp only [Function.update_of_ne hrq, Function.update_of_ne hrp]
  simp only [appendPage, runStore, PageStore.newPage, PageStore.setPage, PageStore.unpinPage,
    TableHeap.appendPage, hpages]

theorem runStore_insertFrom {tuple : List UInt8} {fuel : Nat} :
    ∀ {s s' : PageStore TablePage} {p : PageId} {r : Option RID},
      TableHeap.insertFrom tuple fuel s p = some (r, s') →
      (insertFrom tuple fuel p).runStore .blank s = (some r, s') := by
  induction fuel with
  | zero =>
    intro s s' p r hins
    cases hins
  | succ fuel ih =>
    intro s s' p r hins
    rw [TableHeap.insertFrom] at hins
    rw [insertFrom]
    by_cases hvalid : p = invalidPageId
    · rw [if_pos hvalid] at hins ⊢
      obtain ⟨rfl, rfl⟩ := Prod.mk.inj (Option.some.inj hins)
      rfl
    · rw [if_neg hvalid] at hins ⊢
      simp only [runStore, PageStore.fetchPage] at hins ⊢
      rcases hinsert : (s.pages p).insertTuple tuple with ⟨_ | slot, page⟩
      · simp only [hinsert] at hins ⊢
        by_cases hnext : page.getNextPageId = invalidPageId
        · rw [if_pos hnext] at hins ⊢
          rw [runStore_appendPage]
          have heq := Option.some.inj hins
          rw [heq]
        · rw [if_neg hnext] at hins ⊢
          exact ih hins
      · simp only [hinsert] at hins ⊢
        obtain ⟨rfl, rfl⟩ := Prod.mk.inj (Option.some.inj hins)
        rfl

theorem runStore_getTuple (s : PageStore TablePage) (rid : RID) :
    (getTuple rid).runStore .blank s =
      (.ok (TableHeap.getTuple s rid).1, (TableHeap.getTuple s rid).2) := rfl

theorem runStore_deleteTuple (s : PageStore TablePage) (rid : RID) :
    (deleteTuple rid).runStore .blank s = ((), TableHeap.deleteTuple s rid) := rfl

theorem runStore_advance {fuel : Nat} :
    ∀ {s s' : PageStore TablePage} {p : PageId} {slot : Nat} {rid : RID},
      TableHeap.advance fuel s p slot = some (rid, s') →
      (advance fuel p slot).runStore .blank s = (some rid, s') := by
  induction fuel with
  | zero =>
    intro s s' p slot rid hadv
    cases hadv
  | succ fuel ih =>
    intro s s' p slot rid hadv
    rw [TableHeap.advance] at hadv
    rw [advance]
    by_cases hvalid : p = invalidPageId
    · rw [if_pos hvalid] at hadv ⊢
      obtain ⟨rfl, rfl⟩ := Prod.mk.inj (Option.some.inj hadv)
      rfl
    · rw [if_neg hvalid] at hadv ⊢
      simp only [runStore, PageStore.fetchPage] at hadv ⊢
      cases hfind : findSlot (s.pages p) slot ((s.pages p).getNumTuples - slot) with
      | some slot' =>
        simp only [hfind] at hadv ⊢
        obtain ⟨rfl, rfl⟩ := Prod.mk.inj (Option.some.inj hadv)
        rfl
      | none =>
        simp only [hfind] at hadv ⊢
        exact ih hadv

/-! ## The discipline -/

section Discipline

variable {s : PageStore TablePage} {n : Nat}

/-- A client that is handed a page and gives it back unchanged. -/
theorem ok_read {α : Type} {prog : PageProg TablePage α} {p : PageId}
    (h : prog.Ok codec n s []) :
    (PageProg.unpinPage p false prog).Ok codec n (s.pinPage p) [(p, false)] := by
  refine ⟨false, List.mem_cons_self, (fun hfalse => nomatch hfalse), ?_⟩
  rw [unpinPage_pinPage, List.erase_cons_head]
  exact h

/-- A client that writes the page it was handed. -/
theorem ok_write {α : Type} {prog : PageProg TablePage α} {p : PageId} {page : TablePage}
    (hpage : InFrame page) (h : prog.Ok codec n (s.setPage p page) []) :
    (PageProg.setPage p page (.unpinPage p true prog)).Ok codec n (s.pinPage p) [(p, false)] := by
  refine ⟨ofPage_toPage hpage, false, List.mem_cons_self, true, List.mem_cons_self,
    fun _ => rfl, ?_⟩
  rw [unpinPage_setPage_pinPage, List.erase_cons_head, List.erase_cons_head]
  exact h

theorem ok_create (hn : 1 ≤ n) (hid : s.nextPageId + 1 < 2 ^ 31) : create.Ok codec n s [] :=
  ⟨hn, hid, ofPage_toPage (inFrame_init _), true, List.mem_cons_self, true, List.mem_cons_self,
    fun _ => rfl, by simp [Ok]⟩

theorem ok_appendPage {tuple : List UInt8} {p : PageId} {page : TablePage} (hn : 2 ≤ n)
    (hid : s.nextPageId + 1 < 2 ^ 31) (hpage : InFrame page) :
    (appendPage tuple p page).Ok codec n (s.pinPage p) [(p, false)] := by
  have hinit := inFrame_init invalidPageId
  have hnew := hinit.insertTuple (pageRep_init isInt32_invalid) tuple
  have herase : ∀ q : PageId, [(q, true), (p, false)].erase (p, false) = [(q, true)] := by
    intro q
    rw [List.erase_cons_tail (by simp), List.erase_cons_head]
  refine ⟨hn, hid, ofPage_toPage hinit, true, List.mem_cons_self, ?_⟩
  rw [List.erase_cons_head]
  refine ⟨ofPage_toPage (hpage.setNextPageId _), false,
    List.mem_cons_of_mem _ List.mem_cons_self, true, List.mem_cons_self, fun _ => rfl, ?_⟩
  rw [List.erase_cons_head, herase]
  refine ⟨ofPage_toPage hnew, true, List.mem_cons_self, true, List.mem_cons_self,
    fun _ => rfl, ?_⟩
  rw [List.erase_cons_head, List.erase_cons_head]
  rfl

/-- **`InsertTuple`** pins the page it looks at, and at the end the one it appends. -/
theorem ok_insertFrom (hn : 2 ≤ n) (hid : s.nextPageId + 1 < 2 ^ 31) {tuple : List UInt8}
    {chain : HeapChain} :
    ∀ {p : PageId} {fuel : Nat}, Chain s p chain → chain.length < fuel →
      (∀ e ∈ chain, (0 ≤ e.1 ∧ e.1 < s.nextPageId) ∧ InFrame (s.pages e.1)) →
      (insertFrom tuple fuel p).Ok codec n s [] := by
  induction chain with
  | nil =>
    rintro p fuel rfl hfuel -
    obtain ⟨fuel, rfl⟩ : ∃ m, fuel = m + 1 := ⟨fuel - 1, by simp at hfuel; omega⟩
    rw [insertFrom, if_pos rfl]
    rfl
  | cons e rest ih =>
    obtain ⟨id, slots⟩ := e
    rintro p fuel ⟨rfl, hvalid, next, hrep, hrest⟩ hfuel hpages
    obtain ⟨fuel, rfl⟩ : ∃ m, fuel = m + 1 := ⟨fuel - 1, by simp at hfuel; omega⟩
    obtain ⟨halloc, hframe⟩ := hpages (p, slots) List.mem_cons_self
    rw [insertFrom, if_neg hvalid]
    refine ⟨halloc, Nat.lt_of_lt_of_le Nat.zero_lt_two hn, ?_⟩
    rcases hinsert : (s.pages p).insertTuple tuple with ⟨_ | slot, page⟩
    · obtain rfl : page = s.pages p := insertTuple_none hinsert
      simp only [hinsert]
      by_cases hnext : (s.pages p).getNextPageId = invalidPageId
      · rw [if_pos hnext]
        exact ok_appendPage hn hid hframe
      · rw [if_neg hnext, hrep.next]
        exact ok_read (ih hrest (Nat.lt_of_succ_lt_succ hfuel)
          fun e he => hpages e (List.mem_cons_of_mem _ he))
    · simp only [hinsert]
      have hpage := hframe.insertTuple hrep tuple
      rw [hinsert] at hpage
      exact ok_write hpage rfl

theorem ok_getTuple (hn : 1 ≤ n) {rid : RID} (hrid : 0 ≤ rid.pageId ∧ rid.pageId < s.nextPageId) :
    (getTuple rid).Ok codec n s [] :=
  ⟨hrid, hn, ok_read rfl⟩

theorem ok_deleteTuple (hn : 1 ≤ n) {rid : RID} {next : PageId} {slots : List (List UInt8)}
    (hrid : 0 ≤ rid.pageId ∧ rid.pageId < s.nextPageId) (hframe : InFrame (s.pages rid.pageId))
    (hrep : PageRep (s.pages rid.pageId) next slots) (hslot : rid.slotNum < slots.length) :
    (deleteTuple rid).Ok codec n s [] :=
  ⟨hrid, hn, ok_write (hframe.deleteTuple hrep hslot) rfl⟩

/-- **`Begin` and `operator++`** pin one page at a time. -/
theorem ok_advance (hn : 1 ≤ n) {chain : HeapChain} :
    ∀ {p : PageId} {slot fuel : Nat}, Chain s p chain → chain.length < fuel →
      (∀ e ∈ chain, 0 ≤ e.1 ∧ e.1 < s.nextPageId) →
      (advance fuel p slot).Ok codec n s [] := by
  induction chain with
  | nil =>
    rintro p slot fuel rfl hfuel -
    obtain ⟨fuel, rfl⟩ : ∃ m, fuel = m + 1 := ⟨fuel - 1, by simp at hfuel; omega⟩
    rw [advance, if_pos rfl]
    rfl
  | cons e rest ih =>
    obtain ⟨id, slots⟩ := e
    rintro p slot fuel ⟨rfl, hvalid, next, hrep, hrest⟩ hfuel hpages
    obtain ⟨fuel, rfl⟩ : ∃ m, fuel = m + 1 := ⟨fuel - 1, by simp at hfuel; omega⟩
    rw [advance, if_neg hvalid]
    refine ⟨hpages (p, slots) List.mem_cons_self, hn, ?_⟩
    cases hfind : findSlot (s.pages p) slot ((s.pages p).getNumTuples - slot) with
    | some slot' =>
      simp only [hfind]
      exact ok_read rfl
    | none =>
      simp only [hfind, hrep.next]
      exact ok_read (ih hrest (Nat.lt_of_succ_lt_succ hfuel)
        fun e he => hpages e (List.mem_cons_of_mem _ he))

end Discipline

/-! ## A sequential scan -/

/-- The RIDs with their tuples. -/
def rowsOf (chain : HeapChain) (rids : List RID) : List (RID × List UInt8) :=
  rids.map fun rid => (rid, (chain.tupleAt rid).getD [])

section Scan

variable {h : TableHeap} {s : PageStore TablePage} {chain : HeapChain}

/-- The page of a live tuple exists. -/
theorem allocated_of_live (hrep : HeapRep h s chain) {rid : RID} {bytes : List UInt8}
    (hlive : chain.tupleAt rid = some bytes) : 0 ≤ rid.pageId ∧ rid.pageId < s.nextPageId := by
  obtain ⟨slots, hmem, -⟩ := HeapChain.tupleAt_eq_some hlive
  exact hrep.allocated _ hmem

/-- `operator++` from a live RID. -/
theorem ok_next (hrep : HeapRep h s chain) {n : Nat} (hn : 1 ≤ n) {front back : List RID}
    {rid : RID} (hsplit : chain.liveRids = front ++ rid :: back) :
    (next (TableHeap.pageFuel s) rid).Ok codec n s [] := by
  rw [← HeapChain.ridsFrom_zero] at hsplit
  obtain ⟨slots, rest, hsuffix, -, -⟩ := HeapChain.ridsFrom_append_eq hsplit
  exact ok_advance hn (hrep.linked.suffix hsuffix)
    (Nat.lt_of_le_of_lt hsuffix.length_le hrep.length_lt)
    fun e he => hrep.allocated e (hsuffix.subset he)

/-- **The rest of the scan**, from any live RID on: it reads the live tuples, and
pins one page at a time. -/
theorem scanFrom_spec (hrep : HeapRep h s chain) {n : Nat} (hn : 1 ≤ n) :
    ∀ {rids front : List RID} {fuel : Nat}, chain.liveRids = front ++ rids → rids.length < fuel →
      (scanFrom (TableHeap.pageFuel s) fuel (rids.head?.getD endRid)).runStore .blank s =
          (some (.ok (rowsOf chain rids)), s) ∧
        (scanFrom (TableHeap.pageFuel s) fuel (rids.head?.getD endRid)).Ok codec n s [] := by
  intro rids
  induction rids with
  | nil =>
    intro front fuel _ hfuel
    obtain ⟨fuel, rfl⟩ := Nat.exists_eq_succ_of_ne_zero (Nat.ne_of_gt hfuel)
    rw [List.head?_nil, Option.getD_none, scanFrom, if_pos rfl]
    exact ⟨rfl, rfl⟩
  | cons rid rids ih =>
    intro front fuel hsplit hfuel
    obtain ⟨fuel, rfl⟩ := Nat.exists_eq_succ_of_ne_zero (Nat.ne_of_gt (Nat.zero_lt_of_lt hfuel))
    obtain ⟨bytes, hlive⟩ := hrep.mem_tupleAt hsplit
    have hsplit' : chain.liveRids = (front ++ [rid]) ++ rids := by simp [hsplit]
    obtain ⟨hrest, hrestOk⟩ := ih hsplit' (Nat.lt_of_succ_lt_succ hfuel)
    have hget : (getTuple rid).runStore .blank s = (.ok bytes, s) := by
      rw [runStore_getTuple, hrep.getTuple hlive]
    have hnext : (next (TableHeap.pageFuel s) rid).runStore .blank s =
        (some (rids.head?.getD endRid), s) := runStore_advance (hrep.next_of_split hsplit)
    rw [List.head?_cons, Option.getD_some, scanFrom, if_neg (hrep.ne_endRid hlive)]
    constructor
    · rw [runStore_bind, hget]
      show ((next (TableHeap.pageFuel s) rid).bind _).runStore .blank s = _
      rw [runStore_bind, hnext]
      show ((scanFrom (TableHeap.pageFuel s) fuel (rids.head?.getD endRid)).bind _).runStore
        .blank s = _
      have hrows : rowsOf chain (rid :: rids) = (rid, bytes) :: rowsOf chain rids := by
        simp only [rowsOf, List.map_cons, hlive, Option.getD_some]
      rw [runStore_bind, hrest, hrows]
      rfl
    · refine (ok_getTuple hn (allocated_of_live hrep hlive)).bind ?_
      rw [ofPage_zero, hget]
      refine (ok_next hrep hn hsplit).bind ?_
      rw [ofPage_zero, hnext]
      refine hrestOk.bind ?_
      rw [ofPage_zero, hrest]
      rfl

/-- **A scan** reads the live tuples in page order, then slot order. -/
theorem scan_spec (hrep : HeapRep h s chain) {n : Nat} (hn : 1 ≤ n) :
    (scan h (TableHeap.pageFuel s) (TableHeap.tupleFuel s)).runStore .blank s =
        (some (.ok (rowsOf chain chain.liveRids)), s) ∧
      (scan h (TableHeap.pageFuel s) (TableHeap.tupleFuel s)).Ok codec n s [] := by
  have hbegin : (begin h (TableHeap.pageFuel s)).runStore .blank s =
      (some (chain.liveRids.head?.getD endRid), s) := runStore_advance hrep.begin
  obtain ⟨hrest, hrestOk⟩ := scanFrom_spec hrep hn (List.nil_append _).symm hrep.length_liveRids_lt
  constructor
  · rw [scan, runStore_bind, hbegin]
    exact hrest
  · have hok : (begin h (TableHeap.pageFuel s)).Ok codec n s [] :=
      ok_advance hn hrep.linked hrep.length_lt hrep.allocated
    refine hok.bind ?_
    rw [ofPage_zero, hbegin]
    exact hrestOk

end Scan

end PoolHeap

end OneBase
