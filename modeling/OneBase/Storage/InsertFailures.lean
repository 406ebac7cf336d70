import OneBase.Storage.HeapUpdate

/-!
# Insertions that fail (`TableHeap::InsertTuple`)

`InsertTuple` returns `std::nullopt` when the buffer pool has no frame for a page, and when the
tuple does not fit on the page that was appended for it. A request that gets no frame changes
nothing in the pool (`PoolFailures`); which requests of the call these are is a parameter here.

- `insertFromWith_eq`: without such requests it is the loop of `TableHeap.insertTuple`.
- `InsertEnd`: the three ways a call can end.
- `insertTupleWith_unchanged_iff`: when a call that returns `std::nullopt` leaves the heap alone.
-/

namespace OneBase

open Cpp PageStore TablePage

namespace TableHeap

/-- The loop of `InsertTuple` (table_heap.cpp:18–52), with a pool that has no frame for the
requests `refused`. A call makes one request for each page that it looks at and one for the page
that it appends; `k` requests were made before. -/
def insertFromWith (refused : Nat → Bool) (tuple : List UInt8) :
    Nat → Nat → PageStore TablePage → PageId → Option (Option RID × PageStore TablePage)
  | 0, _, _, _ => none
  | fuel + 1, k, s, pageId =>
    if pageId = invalidPageId then some (none, s)
    else if refused k then some (none, s)
    else
      let (tablePage, s) := s.fetchPage pageId
      match tablePage.insertTuple tuple with
      | (some slot, tablePage) =>
        some (some ⟨pageId, slot⟩, (s.setPage pageId tablePage).unpinPage pageId)
      | (none, tablePage) =>
        let nextPageId := tablePage.getNextPageId
        if nextPageId = invalidPageId then
          -- `NewPage` returns a null pointer
          if refused (k + 1) then some (none, s.unpinPage pageId)
          else some (appendPage tuple s pageId tablePage)
        else insertFromWith refused tuple fuel (k + 1) (s.unpinPage pageId) nextPageId

/-- Model of `InsertTuple`, on the bytes of the tuple; their number is a `uint32_t`. -/
def insertTupleWith (refused : Nat → Bool) (h : TableHeap) (s : PageStore TablePage)
    (tuple : List UInt8) : Option (Option RID × PageStore TablePage) :=
  insertFromWith refused (tuple.take (tuple.length % 2 ^ 32)) (pageFuel s) 0 s h.firstPageId

/-- A pool that always has a frame. -/
theorem insertFromWith_eq {refused : Nat → Bool} (hgranted : ∀ k, refused k = false)
    (tuple : List UInt8) (fuel k : Nat) (s : PageStore TablePage) (p : PageId) :
    insertFromWith refused tuple fuel k s p = insertFrom tuple fuel s p := by
  induction fuel generalizing k s p with
  | zero => rfl
  | succ fuel ih =>
    unfold insertFromWith insertFrom
    rw [hgranted, hgranted, if_neg Bool.false_ne_true]
    refine if_congr Iff.rfl rfl ?_
    obtain ⟨page, s₁⟩ := s.fetchPage p
    rcases hinsert : page.insertTuple tuple with ⟨_ | slot, tablePage⟩
    · simp only [hinsert]
      exact if_congr Iff.rfl (if_neg Bool.false_ne_true) (ih _ _ _)
    · simp only [hinsert]

end TableHeap

/-- How a call ends that started at page `p` with `k` requests made before: the tuple is stored, a
request got no frame, or the tuple does not fit on the page that was appended. -/
inductive InsertEnd (refused : Nat → Bool) (tuple : List UInt8) (s : PageStore TablePage)
    (p : PageId) (chain : HeapChain) (k : Nat) : Option RID → PageStore TablePage → Prop where
  | stored (rid : RID) (s' : PageStore TablePage) :
      tuple.length ≤ 4076 → InsertEnd refused tuple s p chain k (some rid) s'
  | refused {j : Nat} :
      j ≤ chain.length → refused (k + j) = true → InsertEnd refused tuple s p chain k none s
  | appended {s' : PageStore TablePage} :
      4076 < tuple.length → (∀ j ≤ chain.length, refused (k + j) = false) →
      Chain s' p (chain ++ [(s.nextPageId, [])]) →
      Inserted s s' chain (chain ++ [(s.nextPageId, [])]) →
      InsertEnd refused tuple s p chain k none s'

section

variable {refused : Nat → Bool} {tuple : List UInt8} {s : PageStore TablePage}

/-- A page in front that had no room and was unpinned again. -/
theorem InsertEnd.cons {p next : PageId} {slots : List (List UInt8)} {rest : HeapChain} {k : Nat}
    {r : Option RID} {s' : PageStore TablePage}
    (h : InsertEnd refused tuple s next rest (k + 1) r s') (hfetch : refused k = false)
    (hvalid : p ≠ invalidPageId) (hrep : PageRep (s.pages p) next slots) (hp : p < s.nextPageId)
    (hsep : ∀ e ∈ rest, e.1 ≠ p) : InsertEnd refused tuple s p ((p, slots) :: rest) k r s' := by
  cases h with
  | stored rid s' hlen => exact .stored rid s' hlen
  | @refused j hj hrefused =>
    refine .refused (Nat.succ_le_succ hj) ?_
    rw [← hrefused, Nat.add_right_comm k 1 j]
    rfl
  | appended hlong hgranted hchain hinserted =>
    refine .appended hlong (fun j hj => ?_) ⟨rfl, hvalid, next, ?_, hchain⟩ (hinserted.cons _)
    · cases j with
      | zero => exact hfetch
      | succ j =>
        rw [← hgranted j (Nat.le_of_succ_le_succ hj), Nat.add_right_comm k 1 j]
        rfl
    · rw [hinserted.others p hp hsep]
      exact hrep

namespace TableHeap

/-- The last page has no room: the page is appended before the tuple is tried on it. -/
theorem appendPage_end (hok : s.StoreOk) (hid : s.nextPageId < 2 ^ 31) {p : PageId}
    {slots : List (List UInt8)} (hvalid : p ≠ invalidPageId) (hp : p < s.nextPageId)
    (hrep : PageRep (s.pages p) invalidPageId slots) {k : Nat} (hfetch : refused k = false)
    (hnew : refused (k + 1) = false) :
    ∃ r s', appendPage tuple (s.pinPage p) p (s.pages p) = (r, s') ∧
      InsertEnd refused tuple s p [(p, slots)] k r s' := by
  have hinit := pageRep_init isInt32_invalid
  by_cases hlen : tuple.length ≤ 4076
  · obtain ⟨page, hinsert, -⟩ := insertTuple_init isInt32_invalid hlen
    exact ⟨_, _, appendPage_eq hok hp hinsert, .stored _ _ hlen⟩
  · have hbounds := hinit.fsp_bounds
    have hfull : (TablePage.init invalidPageId).insertTuple tuple =
        (none, TablePage.init invalidPageId) :=
      hinit.insertTuple_full (by omega)
    refine ⟨_, _, appendPage_eq hok hp hfull, .appended (Nat.lt_of_not_le hlen) ?_
      (chain_linkPage hok hid hvalid hp hrep hinit) (inserted_linkPage slots [])⟩
    intro j hj
    rcases Nat.le_one_iff_eq_zero_or_eq_one.mp hj with rfl | rfl
    · exact hfetch
    · exact hnew

/-- **The insertion loop ends** in one of these ways. The induction is on the chain, which the
loop follows with the store as it was. -/
theorem insertFromWith_spec (hok : s.StoreOk) (hid : s.nextPageId < 2 ^ 31) {chain : HeapChain} :
    ∀ {p : PageId} {fuel k : Nat}, Chain s p chain → chain ≠ [] → chain.length ≤ fuel →
      (chain.map Prod.fst).Nodup → (∀ e ∈ chain, e.1 < s.nextPageId) →
      ∃ r s', insertFromWith refused tuple fuel k s p = some (r, s') ∧
        InsertEnd refused tuple s p chain k r s' := by
  induction chain with
  | nil => exact fun _ hne => absurd rfl hne
  | cons e rest ih =>
    obtain ⟨id, slots⟩ := e
    rintro p fuel k ⟨rfl, hvalid, next, hrep, hrest⟩ - hfuel hnodup halloc
    obtain ⟨hnotin, hnodup'⟩ := List.nodup_cons.mp hnodup
    have hp : p < s.nextPageId := halloc (p, slots) List.mem_cons_self
    have hsep : ∀ e ∈ rest, e.1 ≠ p := by
      rintro e he rfl
      exact hnotin (List.mem_map.mpr ⟨e, he, rfl⟩)
    obtain ⟨fuel, rfl⟩ : ∃ n, fuel = n + 1 := ⟨fuel - 1, by simp at hfuel; omega⟩
    unfold insertFromWith
    rw [if_neg hvalid]
    cases hfetch : refused k with
    | true => exact ⟨none, s, rfl, .refused (Nat.zero_le _) hfetch⟩
    | false =>
      have hbounds := hrep.fsp_bounds
      by_cases hroom :
          16 + 4 * slots.length + (tuple.length + 4) ≤ (s.pages p).getFreeSpacePointer
      · obtain ⟨page, hinsert, -⟩ := hrep.insertTuple hroom
        simp only [Bool.false_eq_true, if_false, fetchPage, hinsert]
        exact ⟨_, _, rfl, .stored _ _ (by omega)⟩
      · have hfull : (s.pages p).insertTuple tuple = (none, s.pages p) :=
          hrep.insertTuple_full (Nat.lt_of_not_le hroom)
        simp only [Bool.false_eq_true, if_false, fetchPage, hfull, hrep.next, unpinPage_pinPage]
        cases rest with
        | nil =>
          obtain rfl : next = invalidPageId := hrest
          rw [if_pos rfl]
          cases hnew : refused (k + 1) with
          | true => exact ⟨none, s, rfl, .refused (Nat.le_refl _) hnew⟩
          | false =>
            obtain ⟨r, s', happend, hend⟩ := appendPage_end hok hid hvalid hp hrep hfetch hnew
            exact ⟨r, s', congrArg some happend, hend⟩
        | cons e' rest' =>
          have hnext : next ≠ invalidPageId := hrest.1 ▸ hrest.2.1
          rw [if_neg hnext]
          obtain ⟨r, s', hloop, hend⟩ := ih hrest (List.cons_ne_nil _ _)
            (Nat.le_of_succ_le_succ hfuel) hnodup' fun e he => halloc e (List.mem_cons_of_mem _ he)
          exact ⟨r, s', hloop, hend.cons hfetch hvalid hrep hp hsep⟩

end TableHeap

end

/-- The heap holds the chain, and no pins are left. -/
def Unchanged (h : TableHeap) (s : PageStore TablePage) (chain : HeapChain)
    (s' : PageStore TablePage) : Prop :=
  HeapRep h s' chain ∧ s'.pinCount = s.pinCount

namespace HeapRep

variable {h : TableHeap} {s : PageStore TablePage} {chain : HeapChain}

/-- The heap with an empty page at the end. -/
theorem appended (hrep : HeapRep h s chain) (hok : s.StoreOk) {s' : PageStore TablePage}
    (hchain : Chain s' h.firstPageId (chain ++ [(s.nextPageId, [])]))
    (hinserted : Inserted s s' chain (chain ++ [(s.nextPageId, [])])) :
    HeapRep h s' (chain ++ [(s.nextPageId, [])]) :=
  (hrep.inserted hok hchain (.inr List.map_append) hinserted).1

/-- It is not the heap without that page. -/
theorem not_unchanged {s' : PageStore TablePage} {e : PageId × List (List UInt8)}
    (hrep' : HeapRep h s' (chain ++ [e])) : ¬ Unchanged h s chain s' := by
  rintro ⟨hsame, -⟩
  have heq := congrArg List.length (hsame.unique hrep')
  simp at heq

/-- **The loop of `InsertTuple`** from the first page on. -/
theorem insertTupleWith_end (hrep : HeapRep h s chain) (hok : s.StoreOk)
    (hid : s.nextPageId < 2 ^ 31) (refused : Nat → Bool) (tuple : List UInt8) :
    ∃ r s', TableHeap.insertTupleWith refused h s tuple = some (r, s') ∧
      InsertEnd refused (tuple.take (tuple.length % 2 ^ 32)) s h.firstPageId chain 0 r s' :=
  TableHeap.insertFromWith_spec hok hid hrep.linked hrep.nonempty (Nat.le_of_lt hrep.length_lt)
    hrep.nodup fun e he => (hrep.allocated e he).2

theorem length_take_uint32 (tuple : List UInt8) :
    (tuple.take (tuple.length % 2 ^ 32)).length = tuple.length % 2 ^ 32 :=
  List.length_take_of_le (Nat.mod_le _ _)

/-- **A failed insertion leaves the heap as it was** iff the tuple fits on an empty page or a
request of the call gets no frame. -/
theorem insertTupleWith_unchanged_iff (hrep : HeapRep h s chain) (hok : s.StoreOk)
    (hid : s.nextPageId < 2 ^ 31) (refused : Nat → Bool) (tuple : List UInt8) :
    ∃ r s', TableHeap.insertTupleWith refused h s tuple = some (r, s') ∧
      ((r = none → Unchanged h s chain s') ↔
        tuple.length % 2 ^ 32 ≤ 4076 ∨ ∃ k ≤ chain.length, refused k = true) := by
  obtain ⟨r, s', hrun, hend⟩ := hrep.insertTupleWith_end hok hid refused tuple
  refine ⟨r, s', hrun, ?_⟩
  cases hend with
  | stored rid s' hshort => exact iff_of_true nofun (.inl (length_take_uint32 tuple ▸ hshort))
  | @refused j hj hrefused =>
    exact iff_of_true (fun _ => ⟨hrep, rfl⟩) (.inr ⟨j, hj, Nat.zero_add j ▸ hrefused⟩)
  | appended hlong hgranted hchain hinserted =>
    have hlonger := hrep.appended hok hchain hinserted
    refine iff_of_false (fun h => not_unchanged hlonger (h rfl)) ?_
    rintro (hshort | ⟨j, hj, hrefused⟩)
    · rw [length_take_uint32] at hlong
      exact Nat.not_lt_of_le hshort hlong
    · have hfalse := hgranted j hj
      rw [Nat.zero_add, hrefused] at hfalse
      cases hfalse

end HeapRep

/-- A heap whose page is empty. -/
theorem insertTupleWith_unchanged_emptyPage : ∃ r s',
    TableHeap.insertTupleWith (fun _ => false) ⟨0⟩ (onePage (.init invalidPageId)) [7] =
      some (r, s') ∧
    ((r = none → Unchanged ⟨0⟩ (onePage (.init invalidPageId)) [(0, [])] s') ↔
      [(7 : UInt8)].length % 2 ^ 32 ≤ 4076 ∨ ∃ k ≤ 1, (fun _ : Nat => false) k = true) :=
  (heapRep_onePage (pageRep_init isInt32_invalid)).insertTupleWith_unchanged_iff
    (onePage_ok _) (by decide) (fun _ => false) [7]

/-- A tuple of 4077 bytes is not stored, and the heap has a second page. -/
theorem insertTupleWith_oversized : ∃ s',
    TableHeap.insertTupleWith (fun _ => false) ⟨0⟩ (onePage (.init invalidPageId))
      (List.replicate 4077 7) = some (none, s') ∧
    HeapRep ⟨0⟩ (onePage (.init invalidPageId)) [(0, [])] ∧ HeapRep ⟨0⟩ s' [(0, []), (1, [])] := by
  have hrep := heapRep_onePage (pageRep_init isInt32_invalid)
  have hok := onePage_ok (.init invalidPageId)
  obtain ⟨r, s', hrun, hend⟩ := hrep.insertTupleWith_end hok (by decide) (fun _ => false)
    (List.replicate 4077 7)
  cases hend with
  | stored rid s' hshort =>
    rw [HeapRep.length_take_uint32, List.length_replicate] at hshort
    exact absurd hshort (by decide)
  | refused hj hrefused => cases hrefused
  | appended hlong hgranted hchain hinserted =>
    exact ⟨s', hrun, hrep, hrep.appended hok hchain hinserted⟩

end OneBase
