import OneBase.Storage.TableHeap

/-!
# The walk over a table heap

`Begin` and `operator++` skip deleted slots, the empty ends of pages and pages
without live tuples.

- `advance_spec`: the loop stops at the next live RID.
- `HeapRep.next_of_split`: `operator++` goes from a live RID to the next.
- `HeapRep.walk`: from `Begin` to `End` the iterator visits the live RIDs.
- `liveRids_pairwise`, `mem_liveRids`: these are in page order, then slot order,
  and they are exactly the RIDs with a tuple.
-/

namespace OneBase

open Cpp PageStore TablePage

namespace HeapChain

theorem liveSlots_cons_eq {l : List (List UInt8)} {j k : Nat} {r : List Nat}
    (h : liveSlots l j = k :: r) :
    j ≤ k ∧ k < j + l.length ∧ r = liveSlots (l.drop (k + 1 - j)) (k + 1) := by
  induction l generalizing j with
  | nil => cases h
  | cons bytes l ih =>
    rw [liveSlots] at h
    split at h
    · obtain ⟨hle, hlt, hr⟩ := ih h
      have hsub : k + 1 - j = (k + 1 - (j + 1)) + 1 := by omega
      refine ⟨by omega, by simp only [List.length_cons]; omega, ?_⟩
      rw [hsub, List.drop_succ_cons, hr]
    · obtain ⟨rfl, rfl⟩ := List.cons.inj h
      exact ⟨Nat.le_refl _, by simp, by simp⟩

/-- The live RIDs from slot `j` of the first page on. -/
def ridsFrom : HeapChain → Nat → List RID
  | [], _ => []
  | (id, slots) :: rest, j =>
    (liveSlots (slots.drop j) j).map (fun slot => ⟨id, slot⟩) ++ liveRids rest

theorem ridsFrom_zero (chain : HeapChain) : chain.ridsFrom 0 = chain.liveRids := by
  cases chain with
  | nil => rfl
  | cons e rest => rfl

/-- After a live RID come the live RIDs from the next slot of its page on. -/
theorem ridsFrom_cons_eq {chain : HeapChain} {j : Nat} {rid : RID} {rids : List RID}
    (h : chain.ridsFrom j = rid :: rids) :
    ∃ slots rest, ((rid.pageId, slots) :: rest) <:+ chain ∧ rid.slotNum < slots.length ∧
      rids = ridsFrom ((rid.pageId, slots) :: rest) (rid.slotNum + 1) := by
  -- `liveRids` of a chain is the case `j = 0`, so the induction is on the chain for every `j`
  induction chain generalizing j with
  | nil => cases h
  | cons e rest ih =>
    obtain ⟨id, slots⟩ := e
    rw [ridsFrom] at h
    cases hlive : liveSlots (slots.drop j) j with
    | nil =>
      rw [hlive, List.map_nil, List.nil_append, ← ridsFrom_zero] at h
      obtain ⟨slots', rest', hsuffix, hrest⟩ := ih h
      exact ⟨slots', rest', hsuffix.trans (List.suffix_cons _ _), hrest⟩
    | cons k r =>
      rw [hlive, List.map_cons, List.cons_append] at h
      obtain ⟨rfl, rfl⟩ := List.cons.inj h
      obtain ⟨hle, hlt, hr⟩ := liveSlots_cons_eq hlive
      rw [List.length_drop] at hlt
      have hslot : k < slots.length := by omega
      refine ⟨slots, rest, List.suffix_refl _, hslot, ?_⟩
      show _ = _ ++ liveRids rest
      have hsub : j + (k + 1 - j) = k + 1 := by omega
      rw [hr, List.drop_drop, hsub]

/-- The live RIDs after one of them continue from the next slot of its page. -/
theorem ridsFrom_append_eq {front back : List RID} {rid : RID} :
    ∀ {chain : HeapChain} {j : Nat}, chain.ridsFrom j = front ++ rid :: back →
      ∃ slots rest, ((rid.pageId, slots) :: rest) <:+ chain ∧ rid.slotNum < slots.length ∧
        back = ridsFrom ((rid.pageId, slots) :: rest) (rid.slotNum + 1) := by
  induction front with
  | nil => exact fun h => ridsFrom_cons_eq h
  | cons r front ih =>
    intro chain j h
    obtain ⟨slots, rest, hsuffix, -, hrest⟩ := ridsFrom_cons_eq h
    obtain ⟨slots', rest', hsuffix', hslot, hback⟩ := ih hrest.symm
    exact ⟨slots', rest', hsuffix'.trans hsuffix, hslot, hback⟩

end HeapChain

/-- The end of a chain is a chain. -/
theorem Chain.suffix {s : PageStore TablePage} {p : PageId} {chain rest : HeapChain}
    {e : PageId × List (List UInt8)} (h : Chain s p chain) (hsuffix : (e :: rest) <:+ chain) :
    Chain s e.1 (e :: rest) := by
  induction chain generalizing p with
  | nil => simp at hsuffix
  | cons e' rest' ih =>
    rcases List.suffix_cons_iff.mp hsuffix with heq | hsuffix
    · obtain ⟨rfl, rfl⟩ := List.cons.inj heq
      exact ⟨rfl, h.2.1, h.2.2⟩
    · obtain ⟨-, -, next, -, hrest⟩ := h
      exact ih hrest hsuffix

namespace TableHeap

/-- The loop over the slots of a page finds the first live one. -/
theorem findSlot_spec {p : TablePage} {next : PageId} {slots : List (List UInt8)}
    (hrep : PageRep p next slots) (j : Nat) :
    findSlot p j (slots.length - j) = (HeapChain.liveSlots (slots.drop j) j).head? := by
  obtain ⟨n, hn⟩ : ∃ n, n = slots.length - j := ⟨_, rfl⟩
  induction n generalizing j with
  | zero =>
    rw [← hn, List.drop_of_length_le (by omega)]
    rfl
  | succ n ih =>
    have hj : j < slots.length := by omega
    have hn' : n = slots.length - (j + 1) := by omega
    rw [← hn, findSlot, List.drop_eq_getElem_cons hj, HeapChain.liveSlots, hrep.getTupleSize hj]
    by_cases hempty : slots[j] = []
    · rw [if_pos hempty, if_neg (by simp [hempty]), hn']
      exact ih (j + 1) hn'
    · rw [if_neg hempty, if_pos (List.length_pos_iff.mpr hempty)]
      rfl

/-- **The loop over the pages** stops at the first live RID, or at the end, with
the store as before. -/
theorem advance_spec {s : PageStore TablePage} {chain : HeapChain} :
    ∀ {p : PageId} {j fuel : Nat}, Chain s p chain → chain.length < fuel →
      (chain = [] → j = 0) →
      advance fuel s p j = some ((chain.ridsFrom j).head?.getD endRid, s) := by
  induction chain with
  | nil =>
    rintro p j fuel rfl hfuel -
    obtain ⟨fuel, rfl⟩ : ∃ n, fuel = n + 1 := ⟨fuel - 1, by simp at hfuel; omega⟩
    simp [advance, HeapChain.ridsFrom]
  | cons e rest ih =>
    obtain ⟨id, slots⟩ := e
    rintro p j fuel ⟨rfl, hvalid, next, hrep, hrest⟩ hfuel -
    obtain ⟨fuel, rfl⟩ : ∃ n, fuel = n + 1 := ⟨fuel - 1, by simp at hfuel; omega⟩
    simp only [advance, hvalid, if_false, fetchPage, hrep.num, findSlot_spec hrep j]
    cases hlive : HeapChain.liveSlots (slots.drop j) j with
    | nil =>
      simp only [List.head?_nil, unpinPage_pinPage, hrep.next]
      rw [ih hrest (Nat.lt_of_succ_lt_succ hfuel) fun _ => rfl, HeapChain.ridsFrom, hlive,
        HeapChain.ridsFrom_zero]
      rfl
    | cons k r =>
      simp [HeapChain.ridsFrom, hlive]

end TableHeap

/-! ## The order of the walk -/

namespace HeapChain

theorem mem_liveSlots {l : List (List UInt8)} {j k : Nat} :
    k ∈ liveSlots l j ↔ j ≤ k ∧ ∃ bytes, l[k - j]? = some bytes ∧ bytes ≠ [] := by
  induction l generalizing j with
  | nil => simp [liveSlots]
  | cons bytes l ih =>
    rw [liveSlots]
    rcases Nat.lt_trichotomy k j with hlt | rfl | hgt
    · have hno : ¬ j + 1 ≤ k := by omega
      have hno' : ¬ j ≤ k := by omega
      split <;> simp [ih, hno, hno', Nat.ne_of_lt hlt]
    · by_cases hempty : bytes = []
      · rw [if_pos hempty, ih]
        constructor
        · exact fun h => absurd h.1 (Nat.not_succ_le_self k)
        · rintro ⟨-, bytes', hget, hne⟩
          rw [Nat.sub_self] at hget
          exact absurd (Option.some.inj hget ▸ hempty) hne
      · simp [hempty]
    · have hsub : k - j = (k - (j + 1)) + 1 := by omega
      have hle : j + 1 ≤ k ∧ j ≤ k := by omega
      split <;> simp [ih, hsub, hle, Nat.ne_of_gt hgt]

theorem liveSlots_pairwise (l : List (List UInt8)) (j : Nat) :
    (liveSlots l j).Pairwise (· < ·) := by
  induction l generalizing j with
  | nil => exact .nil
  | cons bytes l ih =>
    rw [liveSlots]
    split
    · exact ih (j + 1)
    · exact .cons (fun k hk => (mem_liveSlots.mp hk).1) (ih (j + 1))

theorem length_liveSlots_le (l : List (List UInt8)) (j : Nat) :
    (liveSlots l j).length ≤ l.length := by
  induction l generalizing j with
  | nil => exact Nat.le_refl _
  | cons bytes l ih =>
    rw [liveSlots]
    split
    · exact Nat.le_succ_of_le (ih (j + 1))
    · exact Nat.succ_le_succ (ih (j + 1))

/-- The page of a listed RID is in the chain. -/
theorem pageId_mem_of_mem_liveRids {chain : HeapChain} {rid : RID} (h : rid ∈ chain.liveRids) :
    rid.pageId ∈ chain.map Prod.fst := by
  obtain ⟨e, he, hrid⟩ := List.mem_flatMap.mp h
  obtain ⟨slot, -, rfl⟩ := List.mem_map.mp hrid
  exact List.mem_map.mpr ⟨e, he, rfl⟩

theorem liveRids_cons (e : PageId × List (List UInt8)) (rest : HeapChain) :
    liveRids (e :: rest) = (liveSlots e.2 0).map (fun slot => ⟨e.1, slot⟩) ++ liveRids rest :=
  List.flatMap_cons

/-- A RID of the first page is listed there if its slot is live. -/
theorem mem_page_rids {id : PageId} {slots : List (List UInt8)} {rid : RID} :
    rid ∈ (liveSlots slots 0).map (fun slot => (⟨id, slot⟩ : RID)) ↔
      rid.pageId = id ∧ slots[rid.slotNum]?.filter (· ≠ []) ≠ none := by
  rw [List.mem_map]
  constructor
  · rintro ⟨slot, hslot, rfl⟩
    obtain ⟨-, bytes, hbytes, hne⟩ := mem_liveSlots.mp hslot
    refine ⟨rfl, ?_⟩
    rw [Nat.sub_zero] at hbytes
    simp [hbytes, hne]
  · rintro ⟨rfl, hlive⟩
    refine ⟨rid.slotNum, mem_liveSlots.mpr ⟨Nat.zero_le _, ?_⟩, rfl⟩
    obtain ⟨bytes, hbytes⟩ := Option.ne_none_iff_exists'.mp hlive
    obtain ⟨hget, hne⟩ := Option.filter_eq_some_iff.mp hbytes
    exact ⟨bytes, hget, by simpa using hne⟩

/-- **The list holds exactly the live RIDs.** -/
theorem mem_liveRids {chain : HeapChain} (hnodup : (chain.map Prod.fst).Nodup) (rid : RID) :
    rid ∈ chain.liveRids ↔ chain.tupleAt rid ≠ none := by
  induction chain with
  | nil => simp [liveRids, tupleAt]
  | cons e rest ih =>
    obtain ⟨hnotin, hnodup'⟩ := List.nodup_cons.mp hnodup
    rw [liveRids_cons, List.mem_append, mem_page_rids, tupleAt]
    by_cases hpage : rid.pageId = e.1
    · have hrest : rid ∉ liveRids rest :=
        fun hmem => hnotin (hpage ▸ pageId_mem_of_mem_liveRids hmem)
      simp only [hpage, hrest, true_and, or_false, if_true]
    · simp only [hpage, false_and, false_or, if_false]
      exact ih hnodup'

/-- Page order, then slot order. -/
def Before (ids : List PageId) (a b : RID) : Prop :=
  ids.idxOf a.pageId < ids.idxOf b.pageId ∨ a.pageId = b.pageId ∧ a.slotNum < b.slotNum

/-- **The list is in page order, then slot order.** -/
theorem liveRids_pairwise {chain : HeapChain} (hnodup : (chain.map Prod.fst).Nodup) :
    chain.liveRids.Pairwise (Before (chain.map Prod.fst)) := by
  induction chain with
  | nil => exact .nil
  | cons e rest ih =>
    obtain ⟨hnotin, hnodup'⟩ := List.nodup_cons.mp hnodup
    have hne : ∀ r ∈ liveRids rest, e.1 ≠ r.pageId :=
      fun r hr heq => hnotin (heq ▸ pageId_mem_of_mem_liveRids hr)
    rw [liveRids_cons, List.map_cons]
    refine List.pairwise_append.mpr ⟨?_, ?_, fun a ha b hb => .inl ?_⟩
    · exact List.pairwise_map.mpr ((liveSlots_pairwise _ _).imp fun hlt => .inr ⟨rfl, hlt⟩)
    · -- the ids in front do not change the order of the rest
      refine (ih hnodup').imp_of_mem fun {a b} ha hb hbefore => hbefore.imp_left fun hlt => ?_
      rw [List.idxOf_cons_ne _ (hne a ha), List.idxOf_cons_ne _ (hne b hb)]
      exact Nat.succ_lt_succ hlt
    · rw [(mem_page_rids.mp ha).1, List.idxOf_cons_self, List.idxOf_cons_ne _ (hne b hb)]
      exact Nat.succ_pos _

theorem Before.ne {ids : List PageId} {a b : RID} (h : Before ids a b) : a ≠ b := by
  rintro rfl
  rcases h with h | ⟨-, h⟩
  · exact Nat.lt_irrefl _ h
  · exact Nat.lt_irrefl _ h

theorem liveSlots_set (l : List (List UInt8)) (j k : Nat) :
    liveSlots (l.set k []) j = (liveSlots l j).filter (· ≠ j + k) := by
  induction l generalizing j k with
  | nil => rfl
  | cons bytes l ih =>
    -- the slots behind the first are not `j`
    have hkeep : (liveSlots l (j + 1)).filter (· ≠ j + 0) = liveSlots l (j + 1) := by
      refine List.filter_eq_self.mpr fun i hi => ?_
      have := (mem_liveSlots.mp hi).1
      simp only [ne_eq, decide_eq_true_eq]
      omega
    cases k with
    | zero =>
      rw [List.set_cons_zero, liveSlots, if_pos rfl, liveSlots]
      split
      · exact hkeep.symm
      · rw [List.filter_cons_of_neg (by simp), hkeep]
    | succ k =>
      have hsum : j + 1 + k = j + (k + 1) := by omega
      rw [List.set_cons_succ, liveSlots, liveSlots, ih, hsum]
      split
      · rfl
      · rw [List.filter_cons_of_pos (by simp)]

/-- **A deletion** takes one RID out of the list. -/
theorem liveRids_deleteAt (chain : HeapChain) (rid : RID) :
    (chain.deleteAt rid).liveRids = chain.liveRids.filter (· ≠ rid) := by
  induction chain with
  | nil => rfl
  | cons e rest ih =>
    rw [deleteAt, List.map_cons, liveRids_cons, liveRids_cons, List.filter_append, List.filter_map]
    refine congrArg₂ _ ?_ ih
    by_cases hpage : e.1 = rid.pageId
    · rw [if_pos hpage, liveSlots_set, Nat.zero_add]
      congr 1
      refine List.filter_congr fun slot _ => ?_
      obtain ⟨page, n⟩ := rid
      obtain rfl : e.1 = page := hpage
      simp
    · rw [if_neg hpage]
      congr 1
      refine (List.filter_eq_self.mpr fun slot _ => ?_).symm
      simp only [Function.comp_apply, ne_eq, decide_eq_true_eq]
      rintro rfl
      exact hpage rfl

/-- A live slot that gets other bytes stays live. -/
theorem liveSlots_set_live {bytes old : List UInt8} (hne : bytes ≠ []) (hold : old ≠ []) :
    ∀ {l : List (List UInt8)} {j k : Nat}, l[k]? = some old →
      liveSlots (l.set k bytes) j = liveSlots l j := by
  intro l
  induction l with
  | nil => exact fun _ => rfl
  | cons b l ih =>
    intro j k hget
    cases k with
    | zero =>
      obtain rfl : b = old := Option.some.inj hget
      rw [List.set_cons_zero, liveSlots, liveSlots, if_neg hne, if_neg hold]
    | succ k => rw [List.set_cons_succ, liveSlots, liveSlots, ih hget]

/-- **An update** leaves the list as it is. -/
theorem liveRids_setAt {chain : HeapChain} (hnodup : (chain.map Prod.fst).Nodup) {rid : RID}
    {old bytes : List UInt8} (hlive : chain.tupleAt rid = some old) (hne : bytes ≠ []) :
    (chain.setAt rid bytes).liveRids = chain.liveRids := by
  obtain ⟨slots, hmem, hslot, hold⟩ := tupleAt_eq_some hlive
  rw [liveRids, setAt, List.flatMap_map, liveRids]
  refine List.flatMap_congr fun e he => ?_
  by_cases hpage : e.1 = rid.pageId
  · obtain rfl : e = (rid.pageId, slots) := List.inj_on_of_nodup_map hnodup he hmem hpage
    rw [if_pos rfl, liveSlots_set_live hne hold hslot]
  · rw [if_neg hpage]

end HeapChain

/-- The pages that the next-page ids lead through, from `p` on. -/
def PageChain (s : PageStore TablePage) : PageId → List PageId → Prop
  | p, [] => p = invalidPageId
  | p, id :: rest => p = id ∧ id ≠ invalidPageId ∧ PageChain s (s.pages id).getNextPageId rest

theorem Chain.pageChain {s : PageStore TablePage} {p : PageId} {chain : HeapChain}
    (h : Chain s p chain) : PageChain s p (chain.map Prod.fst) := by
  induction chain generalizing p with
  | nil => exact h
  | cons e rest ih =>
    obtain ⟨hp, hvalid, next, hrep, hrest⟩ := h
    refine ⟨hp, hvalid, ?_⟩
    rw [hrep.next]
    exact ih hrest

namespace HeapRep

variable {h : TableHeap} {s : PageStore TablePage} {chain : HeapChain}

theorem mem_tupleAt (hrep : HeapRep h s chain) {front back : List RID} {rid : RID}
    (hsplit : chain.liveRids = front ++ rid :: back) : ∃ bytes, chain.tupleAt rid = some bytes := by
  have hmem : rid ∈ chain.liveRids := by simp [hsplit]
  exact Option.ne_none_iff_exists'.mp ((HeapChain.mem_liveRids hrep.nodup rid).mp hmem)

/-- **One step of the iterator** goes to the next live RID. -/
theorem next_of_split (hrep : HeapRep h s chain) {front back : List RID} {rid : RID}
    (hsplit : chain.liveRids = front ++ rid :: back) :
    TableHeap.next s rid = some (back.head?.getD TableHeap.endRid, s) := by
  rw [← HeapChain.ridsFrom_zero] at hsplit
  obtain ⟨slots, rest, hsuffix, hslot, hback⟩ := HeapChain.ridsFrom_append_eq hsplit
  have hchain := hrep.linked.suffix hsuffix
  -- slots fit in 16 bits
  obtain ⟨-, -, next, hpage, -⟩ := hchain
  have hmod : (rid.slotNum + 1) % 2 ^ 16 = rid.slotNum + 1 := by
    have := hpage.slots_lt
    omega
  rw [TableHeap.next, hmod, hback]
  exact TableHeap.advance_spec (hrep.linked.suffix hsuffix)
    (Nat.lt_of_le_of_lt hsuffix.length_le hrep.length_lt) fun h => (nomatch h)

theorem ne_endRid (hrep : HeapRep h s chain) {rid : RID} {bytes : List UInt8}
    (hlive : chain.tupleAt rid = some bytes) : rid ≠ TableHeap.endRid := by
  rintro rfl
  obtain ⟨slots, hmem, -⟩ := HeapChain.tupleAt_eq_some hlive
  have hpos : (0 : Int) ≤ TableHeap.endRid.pageId := (hrep.allocated _ hmem).1
  exact absurd hpos (by decide)

/-- **The rest of the walk**, from any live RID on. -/
theorem walkFrom (hrep : HeapRep h s chain) : ∀ {rids front : List RID} {fuel : Nat},
    chain.liveRids = front ++ rids → rids.length < fuel →
    TableHeap.walkFrom fuel s (rids.head?.getD TableHeap.endRid) = some (rids, s) := by
  intro rids
  induction rids with
  | nil =>
    intro front fuel _ hfuel
    obtain ⟨fuel, rfl⟩ := Nat.exists_eq_succ_of_ne_zero (Nat.ne_of_gt hfuel)
    simp [TableHeap.walkFrom]
  | cons rid rids ih =>
    intro front fuel hsplit hfuel
    obtain ⟨fuel, rfl⟩ := Nat.exists_eq_succ_of_ne_zero (Nat.ne_of_gt (Nat.zero_lt_of_lt hfuel))
    obtain ⟨bytes, hlive⟩ := hrep.mem_tupleAt hsplit
    have hsplit' : chain.liveRids = (front ++ [rid]) ++ rids := by simp [hsplit]
    have hrest := ih hsplit' (Nat.lt_of_succ_lt_succ hfuel)
    simp only [TableHeap.walkFrom, List.head?_cons, Option.getD_some, hrep.ne_endRid hlive,
      if_false, hrep.next_of_split hsplit, hrest]

theorem nodup_liveRids (hrep : HeapRep h s chain) : chain.liveRids.Nodup :=
  (HeapChain.liveRids_pairwise hrep.nodup).imp HeapChain.Before.ne

/-- The live RIDs are no more than the slots of the pages of the store. -/
theorem length_liveRids_lt (hrep : HeapRep h s chain) :
    chain.liveRids.length < TableHeap.tupleFuel s := by
  have hpages : ∀ e ∈ chain, e.2.length ≤ 1020 := by
    intro e he
    obtain ⟨next, hpage⟩ := hrep.linked.pageRep he
    exact hpage.slots_lt
  have hle : chain.liveRids.length ≤ 1020 * chain.length := by
    clear hrep
    induction chain with
    | nil => simp [HeapChain.liveRids]
    | cons e rest ih =>
      have hrest := ih fun e' he' => hpages e' (List.mem_cons_of_mem _ he')
      have hslots := HeapChain.length_liveSlots_le e.2 0
      have hpage := hpages e List.mem_cons_self
      rw [HeapChain.liveRids_cons, List.length_append, List.length_map, List.length_cons]
      omega
  have hlt := hrep.length_lt
  rw [TableHeap.tupleFuel]
  omega

/-- `Begin` is at the first live RID. -/
theorem begin (hrep : HeapRep h s chain) :
    h.begin s = some (chain.liveRids.head?.getD TableHeap.endRid, s) := by
  rw [TableHeap.begin, TableHeap.advance_spec hrep.linked hrep.length_lt fun _ => rfl,
    HeapChain.ridsFrom_zero]

/-- **The walk** from `Begin` to `End` visits the live RIDs, with the store as
before. -/
theorem walk (hrep : HeapRep h s chain) {fuel : Nat} (hfuel : chain.liveRids.length < fuel) :
    h.walk fuel s = some (chain.liveRids, s) := by
  simp only [TableHeap.walk, hrep.begin]
  exact hrep.walkFrom (List.nil_append _).symm hfuel

end HeapRep

end OneBase
