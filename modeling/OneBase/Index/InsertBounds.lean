import OneBase.Index.InsertSteps
import OneBase.Index.PageWrites
import OneBase.Index.RemoveSteps

/-!
# When `Insert` stays inside its pages

`Insert` puts a new element into a page before it looks whether the page has to be split, so a
page that is full of elements is written past its end. Which pages get a new element, and which
of them are split, can be read off the tree before the call.

- `BTree.InPages`: the pages of a tree have no more elements than fit in them.
- `BTree.Splits`, `BTree.Overflows`: what `Insert` will do.
- `insertWrites_inBounds_iff`: every element that `Insert` writes is inside its page if and only
  if no page overflows.
-/

namespace OneBase

namespace BTree

variable {K V : Type} {h : Nat}

/-- **The pages of the tree are inside their 4096 bytes.** -/
def InPages (t : BTree K V h) : Prop := ∀ e ∈ t.pages, e.2.getSize ≤ e.2.capacity

instance (t : BTree K V h) : Decidable t.InPages := inferInstanceAs (Decidable (∀ e ∈ t.pages, _))

namespace InPages

variable {t : BTree K V h}

theorem page (ht : t.InPages) : t.page.getSize ≤ t.page.capacity := by
  obtain ⟨rest, hpages⟩ := t.pages_eq_cons
  exact ht (t.id, t.page) (by rw [hpages]; exact List.mem_cons_self)

theorem child {id p : PageId} {m : Nat} {cs : List (K × BTree K V h)}
    (ht : (node id m p cs).InPages) {c : K × BTree K V h} (hc : c ∈ cs) : c.2.InPages := fun e he =>
  ht e (List.mem_cons_of_mem _ (List.mem_flatMap.mpr ⟨c, hc, he⟩))

/-- **Maximum sizes that fit in a page** keep the pages inside their bytes. -/
theorem of_sized {lm im : Nat} (hlm : lm ≤ leafCapacity) (him : im ≤ internalCapacity) :
    ∀ {h : Nat} {t : BTree K V h}, t.Sized lm im → t.page.getSize ≤ t.page.getMaxSize → t.InPages
  | 0, t, hsized, hmax => by
    obtain ⟨id, page, rfl⟩ := t.exists_leaf
    have hpage : page.maxSize = lm := hsized
    intro e he
    rw [List.mem_singleton.mp he]
    show page.array.length ≤ leafCapacity
    exact Nat.le_trans hmax (Nat.le_trans (Nat.le_of_eq hpage) hlm)
  | h + 1, t, hsized, hmax => by
    obtain ⟨id, m, p, cs, rfl⟩ := t.exists_node
    obtain ⟨hm, -, hchildren⟩ := sized_node.mp hsized
    intro e he
    rcases List.mem_cons.mp he with rfl | he
    · show (slots cs).length ≤ internalCapacity
      exact Nat.le_trans hmax (Nat.le_trans (Nat.le_of_eq hm) him)
    · obtain ⟨c, hc, he⟩ := List.mem_flatMap.mp he
      exact of_sized hlm him (hchildren c hc).2 (hchildren c hc).1.2 e he

end InPages

/-! ## What `Insert` will do -/

section Forecast

variable [LinearOrder K] [Inhabited K]

/-- **`Insert` splits the page**: it is full, and a new key or a new child comes into it. -/
def Splits (key : K) : {h : Nat} → BTree K V h → Prop
  | 0, leaf _ page => key ∉ page.array.map Prod.fst ∧ page.maxSize ≤ page.array.length
  | _ + 1, node _ maxSize _ cs =>
    (∃ c ∈ cs[slotOf key cs]?, Splits key c.2) ∧ maxSize ≤ cs.length

/-- **`Insert` writes past the end of a page**: all its bytes are used, and a new key or a new
child comes into it. -/
def Overflows (key : K) : {h : Nat} → BTree K V h → Prop
  | 0, leaf _ page => key ∉ page.array.map Prod.fst ∧ leafCapacity ≤ page.array.length
  | _ + 1, node _ _ _ cs =>
    ∃ c ∈ cs[slotOf key cs]?, Overflows key c.2 ∨ (Splits key c.2 ∧ internalCapacity ≤ cs.length)

instance decidableSplits (key : K) : ∀ {h : Nat} (t : BTree K V h), Decidable (Splits key t)
  | 0, ⟨_, _⟩ => inferInstanceAs (Decidable (_ ∧ _))
  | h + 1, ⟨_, _, _, cs⟩ =>
    letI : ∀ c : K × BTree K V h, Decidable (Splits key c.2) := fun c => decidableSplits key c.2
    inferInstanceAs (Decidable ((∃ c ∈ cs[slotOf key cs]?, Splits key c.2) ∧ _))

instance decidableOverflows (key : K) : ∀ {h : Nat} (t : BTree K V h), Decidable (Overflows key t)
  | 0, ⟨_, _⟩ => inferInstanceAs (Decidable (_ ∧ _))
  | h + 1, ⟨_, _, _, cs⟩ =>
    letI : ∀ c : K × BTree K V h, Decidable (Overflows key c.2) :=
      fun c => decidableOverflows key c.2
    inferInstanceAs (Decidable (∃ c ∈ cs[slotOf key cs]?,
      Overflows key c.2 ∨ (Splits key c.2 ∧ internalCapacity ≤ cs.length)))

section Slot

variable {id p : PageId} {m : Nat} {l r : List (K × BTree K V h)} {c : K × BTree K V h} {key : K}

theorem splits_node (hslot : slotOf key (l ++ c :: r) = l.length) :
    Splits key (node id m p (l ++ c :: r)) ↔ Splits key c.2 ∧ m ≤ (l ++ c :: r).length := by
  show ((∃ c' ∈ (l ++ c :: r)[slotOf key (l ++ c :: r)]?, _) ∧ _) ↔ _
  simp only [getElem?_slotOf hslot, Option.mem_some_iff, exists_eq_left']

theorem overflows_node (hslot : slotOf key (l ++ c :: r) = l.length) :
    Overflows key (node id m p (l ++ c :: r)) ↔
      Overflows key c.2 ∨ (Splits key c.2 ∧ internalCapacity ≤ (l ++ c :: r).length) := by
  show (∃ c' ∈ (l ++ c :: r)[slotOf key (l ++ c :: r)]?, _) ↔ _
  simp only [getElem?_slotOf hslot, Option.mem_some_iff, exists_eq_left']

end Slot

/-- **Maximum sizes below what fits in a page** leave room for the element that comes before the
split. -/
theorem not_overflows_of_sized {lm im : Nat} (hlm : lm < leafCapacity)
    (him : im < internalCapacity) (key : K) : ∀ {h : Nat} {t : BTree K V h}, t.Sized lm im →
    t.page.getSize ≤ t.page.getMaxSize → ¬ Overflows key t
  | 0, t, hsized, hmax => by
    obtain ⟨id, page, rfl⟩ := t.exists_leaf
    have hpage : page.maxSize = lm := hsized
    rintro ⟨-, hfull⟩
    have hle : page.array.length ≤ page.maxSize := hmax
    omega
  | h + 1, t, hsized, hmax => by
    obtain ⟨id, m, p, cs, rfl⟩ := t.exists_node
    obtain ⟨hm, -, hchildren⟩ := sized_node.mp hsized
    rintro ⟨c, hc, hchild | ⟨-, hfull⟩⟩
    · obtain ⟨hfits, hsized'⟩ := hchildren c (List.mem_of_getElem? hc)
      exact not_overflows_of_sized hlm him key hsized' hfits.2 hchild
    · have hle : cs.length ≤ m := (@getSize_node K V h id p m cs) ▸ hmax
      omega

end Forecast

end BTree

namespace BPlusTree

open BTree

variable {K V : Type} {h : Nat}

/-- The pages that were there before are as they were, except those with the ids. -/
structure Beside (s s₁ : BPlusTree K V) (ids : List PageId) : Prop where
  next : s.nextPageId ≤ s₁.nextPageId
  same : ∀ q < s.nextPageId, q ∉ ids → s₁.pages q = s.pages q

variable [LinearOrder K] [Inhabited K] [Inhabited V]

/-- What `Insert` writes below the page of `t`, and on it: all there is, or the call of
`InsertIntoParent` on the page above it remains. -/
inductive InsertWritten (s : BPlusTree K V) (key : K) (t : BTree K V h) (n : Nat) :
    List ArrayWrite → Prop where
  | done {ws : List ArrayWrite} :
      (Splits key t → t.parent = invalidPageId) →
      ((∀ w ∈ ws, w.InBounds) ↔ ¬ Overflows key t) → InsertWritten s key t n ws
  | split {s₁ : BPlusTree K V} {ws : List ArrayWrite} {k : K} {new : PageId} :
      Splits key t → t.parent ≠ invalidPageId → ((∀ w ∈ ws, w.InBounds) ↔ ¬ Overflows key t) →
      Beside s s₁ t.ids → s.nextPageId ≤ new →
      InsertWritten s key t n (ws ++ s₁.insertIntoParentWrites n t.parent t.id k new)

omit [LinearOrder K] [Inhabited K] [Inhabited V] in
/-- The elements of a new page that takes half of a page with one element more than fitted. -/
theorem moveHalfTo_inBounds {page : TreePage K V} {size : Nat} (hsize : size < page.capacity)
    (p : PageId) : ∀ w ∈ (moveHalfToWrites (size + 1)).map (page.element p ·), w.InBounds := by
  simp only [moveHalfToWrites, List.forall_mem_map, List.mem_range, TreePage.inBounds_element]
  intro i hi
  omega

theorem populateNewRoot_inBounds (p : PageId) :
    ∀ w ∈ populateNewRootWrites.map (ArrayWrite.internal p), w.InBounds := by
  simp only [populateNewRootWrites, List.forall_mem_map, inBounds_internal]
  decide

/-! ## The leaf -/

section Leaf

variable {s : BPlusTree K V} {id : PageId} {page : LeafPage K V}

/-- The new entry is inside the leaf if one more fits. -/
theorem insert_inBounds_iff (id : PageId) {key : K} (hinc : Increasing page.array)
    (hkey : key ∉ page.array.map Prod.fst) :
    (∀ w ∈ (page.insertWrites key).map (ArrayWrite.leaf id), w.InBounds) ↔
      page.array.length < leafCapacity := by
  obtain ⟨hle, hmem⟩ := LeafPage.mem_insertWrites hinc hkey
  simp only [List.forall_mem_map, inBounds_leaf]
  constructor
  · intro hall
    exact hall _ hmem
  · intro hlt i hi
    exact (hle i hi).trans_lt hlt

theorem insertIntoLeafWrites_spec (hsub : s.Sub (leaf id page)) (key : K) (value : V) (n : Nat) :
    InsertWritten s key (leaf id page) n (s.insertIntoLeafWrites n id key value) := by
  have hpage : s.pages id = some (.leaf page) := hsub.rep.page
  have hinc : Increasing page.array := hsub.ordered
  have hid : id < s.nextPageId := (hsub.alloc id (id_mem_ids (leaf id page))).2
  rcases LeafPage.insert_cases hinc key value with
    ⟨hmem, hinsert⟩ | ⟨hmem, l, r, harray, -, -, hinsert⟩
  · have hwrites : s.insertIntoLeafWrites n id key value = [] := by
      simp only [insertIntoLeafWrites, leafAt_eq hpage, hinsert, if_true,
        LeafPage.insertWrites_of_mem hinc hmem]
      rfl
    rw [hwrites]
    exact .done (fun hsplits => absurd hmem hsplits.1)
      (iff_of_true (fun w hw => absurd hw List.not_mem_nil) fun hover => hover.1 hmem)
  · have hlen : (l ++ (key, value) :: r).length = page.array.length + 1 := by
      rw [harray, List.length_append, List.length_append, List.length_cons, Nat.add_assoc]
    have hne : ¬ page.array.length + 1 = page.array.length := Nat.succ_ne_self _
    have hover : Overflows key (leaf id page) ↔ leafCapacity ≤ page.array.length :=
      and_iff_right hmem
    have hinsert' := insert_inBounds_iff id hinc hmem
    by_cases hroom : page.array.length < page.maxSize
    · have hmax : ¬ page.maxSize < page.array.length + 1 := Nat.not_lt.mpr hroom
      have hwrites : s.insertIntoLeafWrites n id key value =
          (page.insertWrites key).map (.leaf id) := by
        simp only [insertIntoLeafWrites, leafAt_eq hpage, hinsert, hlen, if_neg hne, if_neg hmax,
          List.append_nil]
      rw [hwrites]
      refine .done (fun hsplits => absurd hroom (Nat.not_lt.mpr hsplits.2)) ?_
      rw [hinsert', hover, Nat.not_le]
    · have hfull : page.maxSize ≤ page.array.length := Nat.not_lt.mp hroom
      have hmax : page.maxSize < page.array.length + 1 := Nat.lt_succ_of_le hfull
      have hhalf : page.array.length < leafCapacity → ∀ w ∈
          (moveHalfToWrites (page.array.length + 1)).map (ArrayWrite.leaf s.nextPageId),
            w.InBounds :=
        fun hlt => @moveHalfTo_inBounds K V (.leaf page) _ hlt s.nextPageId
      by_cases hp : page.parentPageId = invalidPageId
      · have hwrites : s.insertIntoLeafWrites n id key value =
            (page.insertWrites key).map (.leaf id) ++
              ((moveHalfToWrites (page.array.length + 1)).map (.leaf s.nextPageId) ++
                populateNewRootWrites.map (.internal (s.nextPageId + 1))) := by
          simp only [insertIntoLeafWrites, leafAt_eq hpage, hinsert, hlen, if_neg hne, if_pos hmax,
            if_pos hp]
          rfl
        rw [hwrites]
        refine .done (fun _ => hp) ?_
        rw [List.forall_mem_append, List.forall_mem_append, hinsert', hover, Nat.not_le]
        exact and_iff_left_of_imp fun hlt => ⟨hhalf hlt, populateNewRoot_inBounds _⟩
      · let page' : LeafPage K V := { page with array := l ++ (key, value) :: r }
        let halves := page'.moveHalfTo (LeafPage.init s.leafMaxSize)
        let s₁ := ((s.newPageGuarded (.leaf (LeafPage.init s.leafMaxSize))).2.write id
          (.leaf halves.1)).write s.nextPageId (.leaf halves.2)
        have hwrites : s.insertIntoLeafWrites n id key value =
            (page.insertWrites key).map (.leaf id) ++
              (moveHalfToWrites (page.array.length + 1)).map (.leaf s.nextPageId) ++
                s₁.insertIntoParentWrites n page.parentPageId id (halves.2.keyAt 0)
                  s.nextPageId := by
          rw [List.append_assoc]
          simp only [insertIntoLeafWrites, leafAt_eq hpage, hinsert, hlen, if_neg hne, if_pos hmax,
            if_neg hp]
          rfl
        rw [hwrites]
        refine .split ⟨hmem, hfull⟩ hp ?_ ⟨Int.le_of_lt (Int.lt_succ _), fun q hq hnot => ?_⟩
          (Int.le_refl _)
        · rw [List.forall_mem_append, hinsert', hover, Nat.not_le]
          exact and_iff_left_of_imp hhalf
        · have hqid : q ≠ id := fun heq => hnot (heq ▸ List.mem_cons_self)
          have hqnew : q ≠ s.nextPageId := Int.ne_of_lt hq
          exact (Function.update_of_ne hqnew _ _).trans
            ((Function.update_of_ne hqid _ _).trans (Function.update_of_ne hqnew _ _))

end Leaf

/-! ## The page above -/

section Inner

variable {s s₁ : BPlusTree K V} {id p : PageId} {m : Nat} {cs l r : List (K × BTree K V h)}
  {c : K × BTree K V h} {key : K}

omit [LinearOrder K] [Inhabited V] in
/-- The children that move to a new page were on the old one. -/
theorem exists_of_mem_moveHalfTo {page recipient : InternalPage K} {e : K × PageId}
    (he : e ∈ (page.moveHalfTo recipient).2.array) : ∃ e' ∈ page.array, e'.2 = e.2 := by
  simp only [InternalPage.moveHalfTo] at he
  split at he
  · exact absurd he List.not_mem_nil
  · rename_i e₀ rest hdrop
    have hsub : ∀ x ∈ e₀ :: rest, x ∈ page.array := fun x hx => List.mem_of_mem_drop (hdrop ▸ hx)
    rcases List.mem_cons.mp he with rfl | he
    · exact ⟨e₀, hsub e₀ List.mem_cons_self, rfl⟩
    · exact ⟨e, hsub e (List.mem_cons_of_mem _ he), rfl⟩

/-- The store after a page was split: both halves are written, and the children of the new page
have it as their parent. -/
def splitPage (s : BPlusTree K V) (id : PageId) (page : InternalPage K) : BPlusTree K V :=
  let halves := page.moveHalfTo (InternalPage.init s.internalMaxSize)
  (((s.newPageGuarded (.internal (InternalPage.init s.internalMaxSize))).2.write id
    (.internal halves.1)).write s.nextPageId (.internal halves.2)).setParents s.nextPageId
      halves.2.array

omit [LinearOrder K] [Inhabited V] in
/-- **The writes of `InsertIntoParent`**: the new child, and if the page is too large then its
second half, and a new root or the call on the page above. -/
theorem insertIntoParentWrites_succ {page parent : InternalPage K}
    (hpage : s.internalAt id = some page) {old new : PageId} {k : K}
    (hparent : page.insertNodeAfter old k new = parent) (n : Nat) :
    s.insertIntoParentWrites (n + 1) id old k new =
      (page.insertNodeAfterWrites old).map (.internal id) ++
        if parent.maxSize < parent.array.length then
          (moveHalfToWrites parent.array.length).map (.internal s.nextPageId) ++
            if parent.parentPageId = invalidPageId then
              populateNewRootWrites.map (.internal (s.nextPageId + 1))
            else
              (s.splitPage id parent).insertIntoParentWrites n parent.parentPageId id
                (parent.keyAt (parent.array.length / 2)) s.nextPageId
        else [] := by
  rw [insertIntoParentWrites]
  simp only [hpage, hparent]
  rfl

omit [LinearOrder K] [Inhabited V] in
/-- **The page was split**: nothing beside it changed. -/
theorem Beside.splitPage {old : List PageId} (hbeside : Beside s s₁ old) {ids : List PageId}
    (hold : ∀ q ∈ old, q ∈ ids) (hid : id ∈ ids) {page : InternalPage K}
    (hpage : ∀ e ∈ page.array, e.2 ∈ ids ∨ s.nextPageId ≤ e.2) :
    Beside s (s₁.splitPage id page) ids := by
  let halves := page.moveHalfTo (InternalPage.init s₁.internalMaxSize)
  obtain ⟨log, heq, -⟩ := setParents_eq s₁.nextPageId halves.2.array
    (((s₁.newPageGuarded (.internal (InternalPage.init s₁.internalMaxSize))).2.write id
      (.internal halves.1)).write s₁.nextPageId (.internal halves.2))
  rw [BPlusTree.splitPage, heq]
  refine ⟨Int.le_trans hbeside.next (Int.le_of_lt (Int.lt_succ _)), fun q hq hnot => ?_⟩
  have hqnew : q ≠ s₁.nextPageId := Int.ne_of_lt (Int.lt_of_lt_of_le hq hbeside.next)
  have hqid : q ≠ id := fun heq => hnot (heq ▸ hid)
  have hqmoved : q ∉ halves.2.array.map Prod.snd := by
    intro hmem
    obtain ⟨e, he, rfl⟩ := List.mem_map.mp hmem
    obtain ⟨e', he', heq⟩ := exists_of_mem_moveHalfTo he
    rcases hpage e' he' with hin | hge
    · exact hnot (heq ▸ hin)
    · exact absurd hq (Int.not_lt.mpr (heq ▸ hge))
  refine (if_neg hqmoved).trans ?_
  refine (Function.update_of_ne hqnew _ _).trans
    ((Function.update_of_ne hqid _ _).trans ((Function.update_of_ne hqnew _ _).trans ?_))
  exact hbeside.same q hq fun hmem => hnot (hold q hmem)

omit [LinearOrder K] [Inhabited K] [Inhabited V] in
/-- The new child is put behind the one that was split. -/
theorem insertNodeAfter_child (hdistinct : ∀ x ∈ l, x.2.id ≠ c.2.id) (k : K) (new : PageId) :
    (⟨m, p, slots (l ++ c :: r)⟩ : InternalPage K).insertNodeAfter c.2.id k new =
      ⟨m, p, slots l ++ (c.1, c.2.id) :: (k, new) :: slots r⟩ := by
  have hl : ∀ x ∈ slots l, x.2 ≠ (c.1, c.2.id).2 := by
    intro x hx
    obtain ⟨c', hc', rfl⟩ := List.mem_map.mp hx
    exact hdistinct c' hc'
  exact @InternalPage.insertNodeAfter_eq K ⟨m, p, slots (l ++ c :: r)⟩ _ _ _ slots_append hl k new

omit [LinearOrder K] [Inhabited K] [Inhabited V] in
/-- The elements behind it are moved, which is inside the page if one more fits. -/
theorem insertNodeAfterWrites_inBounds_iff (hdistinct : ∀ x ∈ l, x.2.id ≠ c.2.id) :
    (∀ w ∈ ((⟨m, p, slots (l ++ c :: r)⟩ : InternalPage K).insertNodeAfterWrites c.2.id).map
      (ArrayWrite.internal id), w.InBounds) ↔ (l ++ c :: r).length < internalCapacity := by
  have hindex := @valueIndex_slots K V h m p l r c hdistinct
  simp only [InternalPage.insertNodeAfterWrites, hindex, List.forall_mem_map, inBounds_internal]
  rw [length_slots, forall_shiftWrites_lt]
  rw [List.length_append, List.length_cons]
  omega

omit [LinearOrder K] [Inhabited K] [Inhabited V] in
/-- A child of the page with the new child is an old one, or the new one. -/
theorem mem_slots_newChild {k : K} {new : PageId} {e : K × PageId}
    (he : e ∈ slots l ++ (c.1, c.2.id) :: (k, new) :: slots r) :
    (∃ x ∈ l ++ c :: r, x.2.id = e.2) ∨ e.2 = new := by
  have hold : ∀ x ∈ l ++ c :: r, e = (x.1, x.2.id) → ∃ x ∈ l ++ c :: r, x.2.id = e.2 :=
    fun x hx heq => ⟨x, hx, by rw [heq]⟩
  rcases List.mem_append.mp he with he | he
  · obtain ⟨x, hx, rfl⟩ := List.mem_map.mp he
    exact .inl (hold x (List.mem_append_left _ hx) rfl)
  · rcases List.mem_cons.mp he with rfl | he
    · exact .inl (hold c (List.mem_append_right _ List.mem_cons_self) rfl)
    · rcases List.mem_cons.mp he with rfl | he
      · exact .inr rfl
      · obtain ⟨x, hx, rfl⟩ := List.mem_map.mp he
        exact .inl (hold x (List.mem_append_right _ (List.mem_cons_of_mem _ hx)) rfl)

omit [Inhabited V] in
/-- **`InsertIntoParent`** on a page whose child was split. -/
theorem insertIntoParentWrites_spec (hsub : s.Sub (node id m p (l ++ c :: r)))
    (hslot : slotOf key (l ++ c :: r) = l.length) (hchild : Splits key c.2)
    (hbeside : Beside s s₁ c.2.ids) {ws : List ArrayWrite}
    (hws : (∀ w ∈ ws, w.InBounds) ↔ ¬ Overflows key c.2) {k : K} {new : PageId}
    (hnew : s.nextPageId ≤ new) (n : Nat) :
    InsertWritten s key (node id m p (l ++ c :: r)) n
      (ws ++ s₁.insertIntoParentWrites (n + 1) id c.2.id k new) := by
  have hc : c ∈ l ++ c :: r := List.mem_append_right _ List.mem_cons_self
  have hids : ∀ x ∈ l ++ c :: r, ∀ q ∈ x.2.ids, q ∈ (node id m p (l ++ c :: r)).ids := by
    intro x hx q hq
    rw [ids_node]
    exact List.mem_cons_of_mem _ (List.mem_flatMap.mpr ⟨x, hx, hq⟩)
  have hpage : s₁.internalAt id = some ⟨m, p, slots (l ++ c :: r)⟩ := by
    refine internalAt_eq ?_
    rw [hbeside.same id hsub.id_alloc.2 fun hmem =>
      hsub.id_not_mem (List.mem_flatMap.mpr ⟨c, hc, hmem⟩)]
    exact hsub.page
  have hlen : (slots l ++ (c.1, c.2.id) :: (k, new) :: slots r).length =
      (l ++ c :: r).length + 1 := by
    simp only [slots, List.length_append, List.length_cons, List.length_map]
    omega
  have hshift := @insertNodeAfterWrites_inBounds_iff K V h id p m l r c hsub.distinct.1
  have hover : ¬ Overflows key (node id m p (l ++ c :: r)) ↔
      ¬ Overflows key c.2 ∧ (l ++ c :: r).length < internalCapacity := by
    rw [overflows_node hslot, not_or, and_iff_right hchild, Nat.not_le]
  have hsplits : Splits key (node id m p (l ++ c :: r)) ↔ m < (l ++ c :: r).length + 1 := by
    rw [splits_node hslot, and_iff_right hchild, Nat.lt_succ_iff]
  have hhalf : (l ++ c :: r).length < internalCapacity → ∀ w ∈
      (moveHalfToWrites ((l ++ c :: r).length + 1)).map (ArrayWrite.internal s₁.nextPageId),
        w.InBounds :=
    fun hlt => @moveHalfTo_inBounds K V (.internal ⟨m, p, []⟩) _ hlt s₁.nextPageId
  rw [insertIntoParentWrites_succ hpage (insertNodeAfter_child hsub.distinct.1 k new)]
  dsimp only
  rw [hlen]
  by_cases hfull : m < (l ++ c :: r).length + 1
  · rw [if_pos hfull]
    by_cases hp : p = invalidPageId
    · rw [if_pos hp]
      refine .done (fun _ => hp) ?_
      simp only [List.forall_mem_append]
      rw [hws, hshift, hover]
      exact and_congr_right fun _ => and_iff_left_of_imp fun hlt =>
        ⟨hhalf hlt, populateNewRoot_inBounds _⟩
    · rw [if_neg hp, ← List.append_assoc, ← List.append_assoc]
      refine .split (hsplits.mpr hfull) hp ?_
        (hbeside.splitPage (hids c hc) (id_mem_ids (node id m p (l ++ c :: r))) fun e he => ?_)
        hbeside.next
      · simp only [List.forall_mem_append, and_assoc]
        rw [hws, hshift, hover]
        exact and_congr_right fun _ => and_iff_left_of_imp hhalf
      · rcases mem_slots_newChild he with ⟨x, hx, heq⟩ | heq
        · exact .inl (heq ▸ hids x hx _ (id_mem_ids x.2))
        · exact .inr (heq ▸ hnew)
  · rw [if_neg hfull, List.append_nil]
    refine .done (fun hsp => absurd (hsplits.mp hsp) hfull) ?_
    rw [List.forall_mem_append, hws, hshift, hover]

end Inner

/-! ## `Insert` -/

/-- What `Insert` writes from a page that is fetched. -/
def insertFromWrites (s : BPlusTree K V) (m n : Nat) (p : PageId) (key : K) (value : V) :
    List ArrayWrite :=
  match s.findLeaf .write (·.lookup key) m p with
  | none => []
  | some (leafPageId, s) => s.insertIntoLeafWrites n leafPageId key value

/-- **What `Insert` writes below a page**, by induction on the height. -/
theorem insertFromWrites_spec (key : K) (value : V) : ∀ {h : Nat} {t : BTree K V h}
    {s : BPlusTree K V}, s.Sub t → s.log.Ok [(t.id, .write)] → ∀ m n : Nat,
    InsertWritten s key t n (s.insertFromWrites (m + h + 1) (n + h) t.id key value)
  | 0, t, s, hsub, hlog, m, n => by
    obtain ⟨id, page, rfl⟩ := t.exists_leaf
    have hrun : s.insertFromWrites (m + 0 + 1) (n + 0) (leaf id page).id key value =
        s.insertIntoLeafWrites n id key value := by
      rw [insertFromWrites, findLeaf_leaf
        (show s.pages (leaf id page).id = some (.leaf page) from hsub.rep.page)]
      rfl
    rw [hrun]
    exact insertIntoLeafWrites_spec hsub key value n
  | h + 1, t, s, hsub, hlog, m, n => by
    obtain ⟨id, im, p, cs, rfl⟩ := t.exists_node
    obtain ⟨l, c, r, hdown⟩ := hsub.exists_descent hlog key
    have ih := insertFromWrites_spec key value hdown.child hdown.log m (n + 1)
    have hrun : s.insertFromWrites (m + (h + 1) + 1) (n + (h + 1)) id key value =
        (s.descended .write id c.2.id).insertFromWrites (m + h + 1) (n + 1 + h) c.2.id key
          value := by
      rw [insertFromWrites, findLeaf_node hsub.page, hdown.lookup,
        show n + (h + 1) = n + 1 + h by omega]
      rfl
    rw [← hrun] at ih
    have hslot : slotOf key cs = l.length := hdown.index
    obtain ⟨rfl, -, -⟩ := hdown.route
    show InsertWritten s key (node id im p (l ++ c :: r)) n
      (s.insertFromWrites (m + (h + 1) + 1) (n + (h + 1)) id key value)
    generalize s.insertFromWrites (m + (h + 1) + 1) (n + (h + 1)) id key value = ws at ih ⊢
    cases ih with
    | done hsplits hws =>
      have hnot : ¬ Splits key c.2 := fun hsp => hdown.parent_ne (hsplits hsp)
      refine .done (fun hsp => absurd ((splits_node hslot).mp hsp).1 hnot) ?_
      rw [hws, overflows_node hslot]
      exact not_congr (or_iff_left fun hboth => hnot hboth.1).symm
    | split hsplits hparent hws hbeside hnew =>
      rw [hdown.parent]
      exact insertIntoParentWrites_spec hsub hslot hsplits ⟨hbeside.next, hbeside.same⟩ hws hnew n

/-- **The elements that `Insert` writes** are inside their pages if and only if no page of the
tree overflows. -/
theorem insertWrites_inBounds_iff {s : BPlusTree K V} {t : BTree K V h} (hwf : s.WellFormed t)
    (hlog : s.log.Ok []) (key : K) (value : V) {fuel : Nat} (hfuel : h + 1 ≤ fuel) :
    (∀ w ∈ s.insertWrites fuel key value, w.InBounds) ↔ ¬ Overflows key t := by
  have hrun : s.insertWrites fuel key value =
      (s.fetchPage t.id .write).insertFromWrites fuel fuel t.id key value := by
    rw [insertWrites, hwf.not_isEmpty, ← hwf.root]
    rfl
  have hsub : (s.fetchPage t.id .write).Sub t := (hwf.setLog (.acquire t.id .write :: s.log)).sub
  have hspec := insertFromWrites_spec key value hsub
    (hlog.acquire fun _ hg => absurd hg List.not_mem_nil) (fuel - h - 1) (fuel - h)
  rw [show fuel - h - 1 + h + 1 = fuel by omega, show fuel - h + h = fuel by omega] at hspec
  rw [hrun]
  generalize (s.fetchPage t.id .write).insertFromWrites fuel fuel t.id key value = ws at hspec ⊢
  cases hspec with
  | done _ hws => exact hws
  | split _ hparent => exact absurd hwf.parent hparent

/-- On an empty tree, the first entry of the new leaf is written. -/
theorem insertWrites_inBounds_empty {s : BPlusTree K V} (hroot : s.rootPageId = invalidPageId)
    (key : K) (value : V) (fuel : Nat) : ∀ w ∈ s.insertWrites fuel key value, w.InBounds := by
  rw [insertWrites, if_pos (show s.isEmpty = true from decide_eq_true hroot)]
  exact (@insert_inBounds_iff K V _ _ _ (LeafPage.init s.leafMaxSize) s.nextPageId key .nil
    List.not_mem_nil).mpr (show 0 < leafCapacity by decide)

/-! ## Maximum sizes that fit -/

section MaxSizes

variable {s : BPlusTree K V} {t : BTree K V h}

omit [Inhabited K] [Inhabited V] in
theorem WellFormed.inPages (hwf : s.WellFormed t) (hmax : s.RootMax)
    (hlm : s.leafMaxSize ≤ leafCapacity) (him : s.internalMaxSize ≤ internalCapacity) :
    t.InPages :=
  .of_sized hlm him hwf.sized (hwf.rootMax_iff.mp hmax)

omit [Inhabited V] in
theorem WellFormed.not_overflows (hwf : s.WellFormed t) (hmax : s.RootMax)
    (hlm : s.leafMaxSize < leafCapacity) (him : s.internalMaxSize < internalCapacity) (key : K) :
    ¬ Overflows key t :=
  not_overflows_of_sized hlm him key hwf.sized (hwf.rootMax_iff.mp hmax)

end MaxSizes

end BPlusTree

end OneBase
