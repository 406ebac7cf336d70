import OneBase.Storage.HeapWalk

/-!
# Where an insertion goes

An insertion goes to the first page with room, behind all slots of that page.

- `TableHeap.insertFrom_mem_iff`: it goes to one of the first pages iff one of them has room.
- `Adds.append_left`, `Adds.append_right`: then the rest of the chain stays, else the front does.
- `HeapRep.liveRids_insert`: a walk that has stopped at a live tuple will visit the new tuple
  unless it went to a page before.
-/

namespace OneBase

open Cpp PageStore TablePage

/-- The tuple fits on the page with a slot of its own. -/
def HasRoom (s : PageStore TablePage) (tuple : List UInt8) (e : PageId × List (List UInt8)) :
    Prop :=
  tuple.length + 4 ≤ (s.pages e.1).getFreeSpaceRemaining

namespace TableHeap

/-- **The first page with room** gets the tuple. -/
theorem insertFrom_mem_iff {s s' : PageStore TablePage} (hok : s.StoreOk)
    (hid : s.nextPageId < 2 ^ 31) {tuple : List UInt8} (hlen : tuple.length ≤ 4076) {rid : RID}
    {front : HeapChain} :
    ∀ {p : PageId} {back : HeapChain} {fuel : Nat}, Chain s p (front ++ back) →
      front ++ back ≠ [] → (front ++ back).length ≤ fuel →
      ((front ++ back).map Prod.fst).Nodup → (∀ e ∈ front ++ back, e.1 < s.nextPageId) →
      insertFrom tuple fuel s p = some (some rid, s') →
      (rid.pageId ∈ front.map Prod.fst ↔ ∃ e ∈ front, HasRoom s tuple e) := by
  induction front with
  | nil => exact fun _ _ _ _ _ _ => by simp
  | cons e front ih =>
    obtain ⟨id, slots⟩ := e
    rintro p back fuel ⟨rfl, hvalid, next, hpage, hrest⟩ - hfuel hnodup halloc hins
    obtain ⟨hnotin, hnodup'⟩ := List.nodup_cons.mp hnodup
    have hbounds := hpage.fsp_bounds
    have hroom : HasRoom s tuple (p, slots) ↔
        16 + 4 * slots.length + (tuple.length + 4) ≤ (s.pages p).getFreeSpacePointer := by
      rw [HasRoom, hpage.getFreeSpaceRemaining]
      omega
    obtain ⟨fuel, rfl⟩ : ∃ n, fuel = n + 1 :=
      ⟨fuel - 1, by simp only [List.cons_append, List.length_cons] at hfuel; omega⟩
    by_cases hfits : HasRoom s tuple (p, slots)
    · obtain ⟨page, hinsert, -⟩ := hpage.insertTuple (hroom.mp hfits)
      simp only [insertFrom, hvalid, if_false, fetchPage, hinsert] at hins
      obtain ⟨hrid, -⟩ := Prod.mk.inj (Option.some.inj hins)
      obtain rfl := Option.some.inj hrid
      exact iff_of_true List.mem_cons_self ⟨_, List.mem_cons_self, hfits⟩
    · have hfull : (s.pages p).insertTuple tuple = (none, s.pages p) :=
        hpage.insertTuple_full (Nat.not_le.mp fun hle => hfits (hroom.mpr hle))
      have hp : p < s.nextPageId := halloc (p, slots) List.mem_cons_self
      -- the tuple goes to a later page, or to a fresh one
      suffices hgoes : rid.pageId ≠ p ∧
          (rid.pageId ∈ front.map Prod.fst ↔ ∃ e ∈ front, HasRoom s tuple e) by
        rw [List.map_cons, List.mem_cons, or_iff_right hgoes.1, hgoes.2]
        constructor
        · rintro ⟨e, he, hroom⟩
          exact ⟨e, List.mem_cons_of_mem _ he, hroom⟩
        · rintro ⟨e, he, hroom⟩
          rcases List.mem_cons.mp he with rfl | he
          · exact absurd hroom hfits
          · exact ⟨e, he, hroom⟩
      rw [List.append_eq] at hrest hnotin hnodup'
      have hrestalloc : ∀ e ∈ front ++ back, e.1 < s.nextPageId := fun e he =>
        halloc e (List.mem_cons_of_mem _ he)
      have hrestfuel : (front ++ back).length ≤ fuel := by
        simpa only [List.cons_append, List.length_cons, Nat.add_le_add_iff_right] using hfuel
      by_cases hlast : front ++ back = []
      · obtain ⟨rfl, rfl⟩ := List.append_eq_nil_iff.mp hlast
        obtain rfl : next = invalidPageId := hrest
        obtain ⟨page, hinsert, -⟩ := insertTuple_init isInt32_invalid hlen
        simp only [insertFrom, hvalid, if_false, fetchPage, hfull, hpage.next, if_true, appendPage,
          newPage, hinsert, Option.map_some] at hins
        obtain ⟨hrid, -⟩ := Prod.mk.inj (Option.some.inj hins)
        obtain rfl := Option.some.inj hrid
        exact ⟨(Int.ne_of_lt hp).symm, by simp⟩
      · have hnext : next ≠ invalidPageId := by
          obtain ⟨e, rest, heq⟩ := List.exists_cons_of_ne_nil hlast
          rw [heq] at hrest
          exact hrest.1 ▸ hrest.2.1
        simp only [insertFrom, hvalid, if_false, fetchPage, hfull, hpage.next, hnext,
          unpinPage_pinPage] at hins
        refine ⟨fun heq => ?_, ih hrest hlast hrestfuel hnodup' hrestalloc hins⟩
        obtain ⟨rid', s'', chain', hins', hadds, -, -⟩ :=
          insertFrom_spec hok hid hlen hrest hlast hrestfuel hnodup' hrestalloc
        rw [hins] at hins'
        obtain ⟨hrid, -⟩ := Prod.mk.inj (Option.some.inj hins')
        obtain rfl := Option.some.inj hrid
        rcases hadds.pageId_mem with hmem | hfresh
        · exact hnotin (heq ▸ hmem)
        · exact Int.ne_of_lt hp (heq.symm.trans hfresh)

end TableHeap

namespace HeapChain

theorem liveSlots_append (l m : List (List UInt8)) (j : Nat) :
    liveSlots (l ++ m) j = liveSlots l j ++ liveSlots m (j + l.length) := by
  induction l generalizing j with
  | nil => rfl
  | cons bytes l ih =>
    have hsum : j + 1 + l.length = j + (l.length + 1) := by omega
    rw [List.cons_append, liveSlots, liveSlots, ih, List.length_cons, hsum]
    split
    · rfl
    · rfl

theorem liveRids_append (front back : HeapChain) :
    liveRids (front ++ back) = liveRids front ++ liveRids back := List.flatMap_append

/-- The live RIDs of a page. -/
def pageRids (e : PageId × List (List UInt8)) : List RID :=
  (liveSlots e.2 0).map fun slot => ⟨e.1, slot⟩

end HeapChain

/-- A tuple without bytes is not live. -/
def newRids (tuple : List UInt8) (rid : RID) : List RID := if tuple = [] then [] else [rid]

namespace Adds

open HeapChain

variable {tuple : List UInt8} {fresh : PageId} {rid : RID}

/-- **The new RID stands behind the live RIDs of the first page.** -/
theorem liveRids {e : PageId × List (List UInt8)} {rest chain chain' : HeapChain}
    (h : Adds tuple fresh chain rid chain') (hchain : chain = e :: rest) :
    ∃ front back, rest.liveRids = front ++ back ∧
      chain'.liveRids = pageRids e ++ (front ++ (newRids tuple rid ++ back)) := by
  induction h generalizing e rest with
  | @here id slots rest' =>
    obtain ⟨rfl, rfl⟩ := List.cons.inj hchain
    refine ⟨[], _, rfl, ?_⟩
    rw [liveRids_cons, liveSlots_append, List.map_append, List.append_assoc, Nat.zero_add]
    refine congrArg _ (congrArg (· ++ _) ?_)
    by_cases hempty : tuple = []
    · simp [newRids, liveSlots, hempty]
    · simp [newRids, liveSlots, hempty]
  | @append e' =>
    obtain ⟨rfl, rfl⟩ := List.cons.inj hchain
    refine ⟨[], [], rfl, ?_⟩
    rw [liveRids_cons]
    refine congrArg _ ?_
    by_cases hempty : tuple = []
    · simp [newRids, HeapChain.liveRids, liveSlots, hempty]
    · simp [newRids, HeapChain.liveRids, liveSlots, hempty]
  | @skip e' rest' chain' rid h ih =>
    obtain ⟨rfl, rfl⟩ := List.cons.inj hchain
    obtain ⟨e'', rest'', rfl⟩ : ∃ e'' rest'', rest' = e'' :: rest'' := by
      cases h <;> exact ⟨_, _, rfl⟩
    obtain ⟨front, back, hsplit, hlive⟩ := ih rfl
    refine ⟨pageRids e'' ++ front, back, ?_, ?_⟩
    · rw [liveRids_cons, hsplit, List.append_assoc]
      rfl
    · rw [liveRids_cons, hlive, List.append_assoc]
      rfl

/-- The tuple goes to one of the first pages. -/
theorem append_left {front back chain' : HeapChain}
    (h : Adds tuple fresh (front ++ back) rid chain')
    (hnodup : ((front ++ back).map Prod.fst).Nodup) (hfresh : fresh ∉ (front ++ back).map Prod.fst)
    (hmem : rid.pageId ∈ front.map Prod.fst) :
    ∃ front', chain' = front' ++ back ∧ Adds tuple fresh front rid front' := by
  induction front generalizing chain' with
  | nil => exact absurd hmem List.not_mem_nil
  | cons e front ih =>
    obtain ⟨chain, hchain⟩ : ∃ chain, chain = e :: front ++ back := ⟨_, rfl⟩
    rw [← hchain] at h
    cases h with
    | @here id slots rest =>
      obtain ⟨rfl, rfl⟩ := List.cons.inj hchain
      exact ⟨_ :: front, rfl, .here⟩
    | @append e' =>
      rw [List.map_append] at hfresh
      exact absurd (List.mem_append_left _ hmem) hfresh
    | @skip e' rest rest' rid h =>
      obtain ⟨rfl, rfl⟩ := List.cons.inj hchain
      have hnodup' := (List.nodup_cons.mp hnodup).2
      have hfresh' : fresh ∉ (front ++ back).map Prod.fst := fun hin =>
        hfresh (List.mem_cons_of_mem _ hin)
      have hne := h.pageId_ne hnodup hfresh
      obtain ⟨front', rfl, h'⟩ := ih h hnodup' hfresh'
        ((List.mem_cons.mp hmem).resolve_left hne)
      exact ⟨e' :: front', rfl, .skip h'⟩

/-- The tuple goes behind the first pages. -/
theorem append_right {front back chain' : HeapChain}
    (h : Adds tuple fresh (front ++ back) rid chain') (hback : back ≠ [])
    (hmem : rid.pageId ∉ front.map Prod.fst) :
    ∃ back', chain' = front ++ back' ∧ Adds tuple fresh back rid back' := by
  induction front generalizing chain' with
  | nil => exact ⟨chain', rfl, h⟩
  | cons e front ih =>
    obtain ⟨chain, hchain⟩ : ∃ chain, chain = e :: front ++ back := ⟨_, rfl⟩
    rw [← hchain] at h
    cases h with
    | @here id slots rest =>
      obtain ⟨rfl, rfl⟩ := List.cons.inj hchain
      exact absurd List.mem_cons_self hmem
    | @append e' =>
      obtain ⟨rfl, hnil⟩ := List.cons.inj hchain
      exact absurd (List.append_eq_nil_iff.mp hnil.symm).2 hback
    | @skip e' rest rest' rid h =>
      obtain ⟨rfl, rfl⟩ := List.cons.inj hchain
      obtain ⟨back', rfl, h'⟩ := ih h fun hin => hmem (List.mem_cons_of_mem _ hin)
      exact ⟨back', rfl, h'⟩

end Adds

/-! ## What a walk will visit -/

/-- No page in front of the page `id` has room. -/
def NoRoomBefore (s : PageStore TablePage) (tuple : List UInt8) (chain : HeapChain) (id : PageId) :
    Prop := ∀ e ∈ chain.takeWhile fun e => e.1 ≠ id, ¬ HasRoom s tuple e

/-- The page of a live RID, with what is live before and after it. -/
theorem HeapChain.split_at {rid : RID} : ∀ {chain : HeapChain} {front back : List RID},
    (chain.map Prod.fst).Nodup → chain.liveRids.Nodup → chain.liveRids = front ++ rid :: back →
    ∃ slots rest before behind,
      chain = (chain.takeWhile fun e => e.1 ≠ rid.pageId) ++ (rid.pageId, slots) :: rest ∧
      pageRids (rid.pageId, slots) = before ++ rid :: behind ∧
      front = liveRids (chain.takeWhile fun e => e.1 ≠ rid.pageId) ++ before ∧
      back = behind ++ liveRids rest := by
  intro chain
  induction chain with
  | nil =>
    intro front back _ _ hsplit
    exact absurd hsplit (by simp [liveRids])
  | cons e rest ih =>
    obtain ⟨id, slots⟩ := e
    intro front back hnodup hlive hsplit
    obtain ⟨hnotin, hnodup'⟩ := List.nodup_cons.mp hnodup
    have hcons : liveRids ((id, slots) :: rest) = pageRids (id, slots) ++ liveRids rest :=
      liveRids_cons _ _
    rw [hcons] at hlive hsplit
    by_cases hpage : id = rid.pageId
    · subst hpage
      have hrest : rid ∉ liveRids rest := fun hmem => hnotin (pageId_mem_of_mem_liveRids hmem)
      have hmem : rid ∈ pageRids (rid.pageId, slots) := by
        have hin : rid ∈ pageRids (rid.pageId, slots) ++ liveRids rest := by
          rw [hsplit]
          exact List.mem_append_right _ List.mem_cons_self
        exact (List.mem_append.mp hin).resolve_right hrest
      obtain ⟨before, behind, hbefore⟩ := List.append_of_mem hmem
      rw [hbefore, List.append_assoc, List.cons_append] at hlive hsplit
      -- a RID is live once, so both splits are at the same place
      have hnot : rid ∉ before ∧ rid ∉ behind ++ liveRids rest := by
        obtain ⟨-, htail, hdisj⟩ := List.nodup_append.mp hlive
        exact ⟨fun hin => hdisj rid hin rid List.mem_cons_self rfl, (List.nodup_cons.mp htail).1⟩
      obtain ⟨rfl, -, rfl⟩ := (List.append_cons_inj_of_notMem hnot.1 hnot.2).mp hsplit
      refine ⟨slots, rest, before, behind, ?_, hbefore, ?_, rfl⟩
      · simp
      · simp [liveRids]
    · have hnot : rid ∉ pageRids (id, slots) := fun hmem =>
        hpage (mem_page_rids.mp hmem).1.symm
      obtain ⟨as, rfl, hrest⟩ : ∃ as, front = pageRids (id, slots) ++ as ∧
          liveRids rest = as ++ rid :: back := by
        rcases List.append_eq_append_iff.mp hsplit with h | ⟨bs, heq, hrest⟩
        · exact h
        · cases bs with
          | nil => exact ⟨[], by simp [heq], hrest.symm⟩
          | cons b bs =>
            rw [List.cons_append] at hrest
            obtain ⟨rfl, -⟩ := List.cons.inj hrest
            exact absurd (heq ▸ List.mem_append_right _ List.mem_cons_self) hnot
      obtain ⟨slots', rest', before, behind, hchain, hbefore, hfront, hback⟩ :=
        ih hnodup' (List.nodup_append.mp hlive).2.1 hrest
      have htake : ((id, slots) :: rest).takeWhile (fun e => e.1 ≠ rid.pageId) =
          (id, slots) :: rest.takeWhile (fun e => e.1 ≠ rid.pageId) := by
        simp [hpage]
      refine ⟨slots', rest', before, behind, ?_, hbefore, ?_, hback⟩
      · rw [htake, List.cons_append, ← hchain]
      · rw [htake, liveRids_cons, hfront, List.append_assoc]
        rfl

namespace HeapRep

variable {h : TableHeap} {s s' : PageStore TablePage} {chain chain' : HeapChain}
  {tuple : List UInt8} {rid iter : RID} {front back : List RID}

/-- Where the new tuple stands: before the page of the iterator, or behind the live tuples of that
page. -/
theorem liveRids_insert (hrep : HeapRep h s chain) (hok : s.StoreOk)
    (hid : s.nextPageId < 2 ^ 31) (hlen : tuple.length ≤ 4076)
    (hins : h.insertTuple s tuple = some (some rid, s'))
    (hadds : Adds tuple s.nextPageId chain rid chain')
    (hsplit : chain.liveRids = front ++ iter :: back) :
    (¬ NoRoomBefore s tuple chain iter.pageId ∧
        ∃ front', chain'.liveRids = front' ++ iter :: back) ∨
      (NoRoomBefore s tuple chain iter.pageId ∧
        ∃ between behind, back = between ++ behind ∧
          chain'.liveRids = front ++ iter :: (between ++ (newRids tuple rid ++ behind))) := by
  obtain ⟨slots, rest, before, after, hchain, hpage, hfront, hback⟩ :=
    HeapChain.split_at hrep.nodup hrep.nodup_liveRids hsplit
  unfold NoRoomBefore
  generalize chain.takeWhile (fun e => decide (e.1 ≠ iter.pageId)) = pages at *
  subst hchain
  have hlength := hrep.length_lt
  have hmem := TableHeap.insertFrom_mem_iff hok hid hlen hrep.linked hrep.nonempty
    (Nat.le_of_lt hlength) hrep.nodup (fun e he => (hrep.allocated e he).2) hins
  by_cases hroom : ∃ e ∈ pages, HasRoom s tuple e
  · -- the pages from the iterator on stay
    obtain ⟨pages', rfl, -⟩ :=
      hadds.append_left hrep.nodup hrep.fresh_notin (hmem.mpr hroom)
    refine .inl ⟨?_, pages'.liveRids ++ before, ?_⟩
    · obtain ⟨e, he, hfits⟩ := hroom
      exact fun hnone => hnone e he hfits
    · rw [HeapChain.liveRids_append, HeapChain.liveRids_cons, hback, List.append_assoc]
      change _ ++ (HeapChain.pageRids (iter.pageId, slots) ++ _) = _
      rw [hpage, List.append_assoc, List.cons_append]
  · -- the pages before stay
    obtain ⟨chain'', rfl, hadds'⟩ :=
      hadds.append_right (List.cons_ne_nil _ _) fun hin => hroom (hmem.mp hin)
    obtain ⟨between, behind, hrest, hlive⟩ := hadds'.liveRids rfl
    refine .inr ⟨fun e he hfits => hroom ⟨e, he, hfits⟩, after ++ between, behind, ?_, ?_⟩
    · rw [hback, hrest, List.append_assoc]
    · rw [HeapChain.liveRids_append, hlive, hpage, hfront]
      simp only [List.append_assoc, List.cons_append]

end HeapRep

end OneBase
