import OneBase.Index.InsertBounds

/-!
# When `Remove` stays inside its pages

`Remove` merges two pages if their elements are no more than the maximum size of a page. Where
the maximum size is more than what fits in a page, a merge may write past its end.

- `BTree.Spills`: what `Remove` will do, from the tree before it.
- `removeWrites_inBounds_iff`: every element that `Remove` writes is inside its page if and only
  if no merge spills.
-/

namespace OneBase

namespace TreePage

variable {K V : Type}

/-- The children of the page. -/
def children : TreePage K V → List PageId
  | leaf _ => []
  | internal page => page.array.map Prod.snd

end TreePage

namespace BTree

variable {K V : Type} {h : Nat}

theorem isLeafPage_page (t : BTree K V h) : t.page.isLeafPage = decide (h = 0) := by
  cases h with
  | zero => rfl
  | succ h => rfl

/-- The children of the root page are pages of the tree. -/
theorem mem_ids_of_mem_children {t : BTree K V h} {q : PageId} (hq : q ∈ t.page.children) :
    q ∈ t.ids := by
  cases h with
  | zero => exact absurd hq List.not_mem_nil
  | succ h =>
    obtain ⟨id, m, p, cs, rfl⟩ := t.exists_node
    obtain ⟨e, he, rfl⟩ := List.mem_map.mp hq
    obtain ⟨c, hc, rfl⟩ := List.mem_map.mp he
    rw [ids_node]
    exact List.mem_cons_of_mem _ (List.mem_flatMap.mpr ⟨c, hc, id_mem_ids c.2⟩)

/-- A page that is not underfull has two elements if it is an internal page. -/
theorem Fits.leaf_or_two_le {lm im : Nat} (him : 0 < h → 3 ≤ im) {t : BTree K V h} (hfits : t.Fits)
    (hsized : t.Sized lm im) : t.page.isLeafPage = true ∨ 2 ≤ t.page.getSize := by
  cases h with
  | zero => exact .inl rfl
  | succ h =>
    obtain ⟨id, m, p, cs, rfl⟩ := t.exists_node
    have hm : m = im := (sized_node.mp hsized).1
    have hmin := (fits_node.mp hfits).1
    have hthree := him (Nat.succ_pos h)
    refine .inr ?_
    rw [getSize_node]
    omega

theorem Fits.rootMin {lm im : Nat} (hlm : 2 ≤ lm) (him : 3 ≤ im) {t : BTree K V h}
    (hfits : t.Fits) (hsized : t.Sized lm im) : t.RootMin := by
  cases h with
  | zero =>
    obtain ⟨id, page, rfl⟩ := t.exists_leaf
    have hmax : page.maxSize = lm := hsized
    have hmin := (fits_leaf.mp hfits).1
    rw [rootMin_leaf]
    omega
  | succ h =>
    obtain ⟨id, m, p, cs, rfl⟩ := t.exists_node
    have hm : m = im := (sized_node.mp hsized).1
    have hmin := (fits_node.mp hfits).1
    rw [rootMin_node]
    omega

/-! ## What `Remove` will do -/

section Forecast

variable [LinearOrder K] [Inhabited K]

/-- **`Remove` merges two pages past the end of one**: a child becomes underfull and is merged with
its neighbour, and the elements of both do not fit in a page. -/
def Spills (key : K) : {h : Nat} → BTree K V h → Prop
  | 0, _ => False
  | _ + 1, node _ _ _ cs =>
    ∃ c ∈ cs[slotOf key cs]?, Spills key c.2 ∨
      (Underflows key c.2 ∧ ∃ b ∈ cs[siblingIndex (slotOf key cs)]?, c.2.Mergeable b.2 ∧
        c.2.page.capacity < c.2.page.getSize - 1 + b.2.page.getSize)

instance decidableSpills (key : K) : ∀ {h : Nat} (t : BTree K V h), Decidable (Spills key t)
  | 0, _ => inferInstanceAs (Decidable False)
  | h + 1, ⟨_, _, _, cs⟩ =>
    letI : ∀ c : K × BTree K V h, Decidable (Spills key c.2) := fun c => decidableSpills key c.2
    inferInstanceAs (Decidable (∃ c ∈ cs[slotOf key cs]?, Spills key c.2 ∨
      (Underflows key c.2 ∧ ∃ b ∈ cs[siblingIndex (slotOf key cs)]?, c.2.Mergeable b.2 ∧
        c.2.page.capacity < c.2.page.getSize - 1 + b.2.page.getSize)))

theorem spills_node {id p : PageId} {m : Nat} {l r : List (K × BTree K V h)}
    {b c : K × BTree K V h} {key : K} (hslot : slotOf key (l ++ c :: r) = l.length)
    (hsibling : (l ++ c :: r)[siblingIndex l.length]? = some b) :
    Spills key (node id m p (l ++ c :: r)) ↔
      Spills key c.2 ∨ (Underflows key c.2 ∧ c.2.Mergeable b.2 ∧
        c.2.page.capacity < c.2.page.getSize - 1 + b.2.page.getSize) := by
  show (∃ c' ∈ (l ++ c :: r)[slotOf key (l ++ c :: r)]?, _) ↔ _
  simp only [getElem?_slotOf hslot, Option.mem_some_iff, exists_eq_left']
  simp only [hslot, hsibling, Option.mem_some_iff, exists_eq_left']

/-- **Maximum sizes that fit in a page**: what a page may have after a merge fits. -/
theorem not_spills_of_sized {lm im : Nat} (hlm : lm ≤ leafCapacity) (him : im ≤ internalCapacity)
    (key : K) : ∀ {h : Nat} {t : BTree K V h}, t.Sized lm im → ¬ Spills key t
  | 0, _, _ => fun hfalse => hfalse
  | h + 1, t, hsized => by
    obtain ⟨id, m, p, cs, rfl⟩ := t.exists_node
    obtain ⟨-, -, hchildren⟩ := sized_node.mp hsized
    rintro ⟨c, hc, hchild | ⟨-, b, -, hmerge, hspill⟩⟩
    · exact not_spills_of_sized hlm him key (hchildren c (List.mem_of_getElem? hc)).2 hchild
    · have hmax : c.2.page.getMaxSize ≤ c.2.page.capacity := by
        have hc' := (hchildren c (List.mem_of_getElem? hc)).2
        generalize c.2 = t at hc' ⊢
        cases h with
        | zero => exact Nat.le_trans (Nat.le_of_eq hc') hlm
        | succ h => exact Nat.le_trans (Nat.le_of_eq hc'.1) him
      exact absurd hspill (Nat.not_lt.mpr (Nat.le_trans hmerge hmax))

theorem Underflows.size_le {key : K} : ∀ {h : Nat} {t : BTree K V h}, Underflows key t →
    t.page.getSize ≤ t.page.getMinSize
  | 0, t, hunder => by
    obtain ⟨id, page, rfl⟩ := t.exists_leaf
    exact hunder.2
  | h + 1, t, hunder => by
    obtain ⟨id, m, p, cs, rfl⟩ := t.exists_node
    rw [getSize_node]
    exact hunder.2

end Forecast

end BTree

namespace BPlusTree

open BTree

variable {K V : Type} [LinearOrder K] [Inhabited K] [Inhabited V] {h : Nat}

/-- One element less is on the root page of `t`, which is `kept` now; the pages beside `t` are as
they were. -/
structure LostOne (s s₁ : BPlusTree K V) (t : BTree K V h) (kept : TreePage K V) : Prop where
  beside : Beside s s₁ t.ids
  page : s₁.pages t.id = some kept
  kind : kept.isLeafPage = t.page.isLeafPage
  size : kept.getSize + 1 = t.page.getSize
  maxSize : kept.getMaxSize = t.page.getMaxSize
  parent : kept.getParentPageId = t.parent
  children : ∀ q ∈ kept.children, q ∈ t.ids

/-- What `Remove` writes below the page of `t`, and on it: all there is, or the page is underfull
and the call of `CoalesceOrRedistribute` remains. -/
inductive RemoveWritten (s : BPlusTree K V) (key : K) (t : BTree K V h) (n : Nat) :
    List ArrayWrite → Prop where
  | done {ws : List ArrayWrite} :
      ¬ Underflows key t → ((∀ w ∈ ws, w.InBounds) ↔ ¬ Spills key t) → RemoveWritten s key t n ws
  | under {s₁ : BPlusTree K V} {kept : TreePage K V} {ws : List ArrayWrite} :
      Underflows key t → ((∀ w ∈ ws, w.InBounds) ↔ ¬ Spills key t) → LostOne s s₁ t kept →
      RemoveWritten s key t n (ws ++ s₁.coalesceOrRedistributeWrites n t.id)

/-! ## The leaf -/

theorem removeFromLeafWrites_spec {s : BPlusTree K V} {id : PageId} {page : LeafPage K V}
    (hsub : s.Sub (leaf id page)) (hpages : (leaf id page).InPages) (key : K) (n : Nat) :
    RemoveWritten s key (leaf id page) n (s.removeFromLeafWrites n id key) := by
  have hpage : s.pages id = some (.leaf page) := hsub.rep.page
  have hcap : page.array.length ≤ leafCapacity := hpages.page
  have hfirst : ∀ w ∈ (page.removeAndDeleteRecordWrites key).map (ArrayWrite.leaf id),
      w.InBounds := by
    simp only [List.forall_mem_map, inBounds_leaf, LeafPage.removeAndDeleteRecordWrites]
    intro i hi
    split at hi
    · exact (lt_of_mem_eraseWrites hi).trans_le hcap
    · exact absurd hi List.not_mem_nil
  have hspills : ¬ Spills key (leaf id page) := fun hfalse => hfalse
  rcases LeafPage.removeAndDeleteRecord_cases hsub.ordered key with
    ⟨hmem, hremove⟩ | ⟨l, v, r, harray, hremove⟩
  · have hwrites : s.removeFromLeafWrites n id key =
        (page.removeAndDeleteRecordWrites key).map (.leaf id) := by
      simp only [removeFromLeafWrites, leafAt_eq hpage, hremove, if_true, List.append_nil]
    rw [hwrites]
    exact .done (fun hunder => hmem hunder.1) (iff_of_true hfirst hspills)
  · have hlen : page.array.length = (l ++ r).length + 1 := by
      rw [harray]
      simp only [List.length_append, List.length_cons]
      omega
    have hne : ¬ (l ++ r).length = page.array.length := by omega
    have hmem : key ∈ page.array.map Prod.fst := by
      rw [harray]
      simp
    by_cases hlt : (l ++ r).length < page.maxSize / 2
    · have hwrites : s.removeFromLeafWrites n id key =
          (page.removeAndDeleteRecordWrites key).map (.leaf id) ++
            (s.write id (.leaf { page with array := l ++ r })).coalesceOrRedistributeWrites n
              id := by
        simp only [removeFromLeafWrites, leafAt_eq hpage, hremove, if_neg hne, TreePage.getMinSize,
          TreePage.isLeafPage, if_true, TreePage.getMaxSize, if_pos hlt]
      rw [hwrites]
      have hlost : LostOne s (s.write id (.leaf { page with array := l ++ r })) (leaf id page)
          (.leaf { page with array := l ++ r }) := by
        refine ⟨⟨Int.le_refl _, fun q _ hq => ?_⟩, Function.update_self .., rfl, hlen.symm, rfl,
          rfl, fun q hq => absurd hq List.not_mem_nil⟩
        have hne : q ≠ id := by
          rintro rfl
          exact hq List.mem_cons_self
        exact Function.update_of_ne hne _ _
      exact .under ⟨hmem, by omega⟩ (iff_of_true hfirst hspills) hlost
    · have hwrites : s.removeFromLeafWrites n id key =
          (page.removeAndDeleteRecordWrites key).map (.leaf id) := by
        simp only [removeFromLeafWrites, leafAt_eq hpage, hremove, if_neg hne, TreePage.getMinSize,
          TreePage.isLeafPage, if_true, TreePage.getMaxSize, if_neg hlt, List.append_nil]
      rw [hwrites]
      refine .done (fun hunder => hlt ?_) (iff_of_true hfirst hspills)
      have hle : page.array.length ≤ page.maxSize / 2 := hunder.2
      omega

/-! ## The step above -/

section Step

variable {s : BPlusTree K V} {neighbor node id : PageId} {neighborPage nodePage : TreePage K V}
  {parent : InternalPage K}

omit [LinearOrder K] [Inhabited V] in
/-- **`Coalesce` writes no page** but the two, their children and the parent. -/
theorem coalesce_beside (hneighbor : s.pages neighbor = some neighborPage)
    (hnode : s.pages node = some nodePage)
    (hkind : neighborPage.isLeafPage = nodePage.isLeafPage)
    (hparent : s.pages id = some (.internal parent)) (index : Nat) :
    ∃ s', s.coalesce neighbor node id index =
        some (decide ((parent.remove (index + 1)).array.length < (parent.maxSize + 1) / 2), s') ∧
      s'.nextPageId = s.nextPageId ∧
      s'.pages id = some (.internal (parent.remove (index + 1))) ∧
      ∀ q, q ≠ neighbor → q ≠ node → q ≠ id → q ∉ neighborPage.children →
        q ∉ nodePage.children → s'.pages q = s.pages q := by
  cases nodePage with
  | leaf leafNode =>
    cases neighborPage with
    | internal neighborInternal => cases hkind
    | leaf neighborLeaf =>
      simp only [coalesce, coalescePages, internalAt_eq hparent, hnode, leafAt, hneighbor,
        Option.bind_eq_bind, Option.bind_some]
      refine ⟨_, rfl, rfl, Function.update_self .., fun q hqa hqb hqid _ _ => ?_⟩
      exact (Function.update_of_ne hqid _ _).trans
        ((Function.update_of_ne hqa _ _).trans (Function.update_of_ne hqb _ _))
  | internal internalNode =>
    cases neighborPage with
    | leaf neighborLeaf => cases hkind
    | internal neighborInternal =>
      let merged := internalNode.moveAllTo neighborInternal (parent.keyAt (index + 1))
      obtain ⟨log, heq, -⟩ := setParents_eq neighborInternal.parentPageId merged.2.array
        ((s.write node (.internal merged.1)).write neighbor (.internal merged.2))
      have hrun : s.coalesce neighbor node id index =
          some (decide ((parent.remove (index + 1)).array.length < (parent.maxSize + 1) / 2),
            (((s.write node (.internal merged.1)).write neighbor
              (.internal merged.2)).setParents neighborInternal.parentPageId
                merged.2.array).write id (.internal (parent.remove (index + 1)))) := by
        simp only [coalesce, coalescePages, internalAt_eq hparent, hnode, internalAt_eq hneighbor,
          Option.bind_eq_bind, Option.bind_some]
        rfl
      refine ⟨_, hrun, ?_, Function.update_self .., fun q hqa hqb hqid hca hcb => ?_⟩
      · rw [heq]
        rfl
      · -- the children of the merged page are those of the two
        have hq : q ∉ merged.2.array.map Prod.snd := by
          have hcb' : q ∉ internalNode.array.map Prod.snd := hcb
          have hca' : q ∉ neighborInternal.array.map Prod.snd := hca
          simp only [merged, InternalPage.moveAllTo, List.map_append, List.mem_append, not_or]
          refine ⟨hca', ?_⟩
          cases harray : internalNode.array with
          | nil => exact List.not_mem_nil
          | cons e rest =>
            rw [harray] at hcb'
            exact hcb'
        refine (Function.update_of_ne hqid _ _).trans ?_
        rw [heq]
        refine (if_neg hq).trans ?_
        exact (Function.update_of_ne hqa _ _).trans (Function.update_of_ne hqb _ _)

omit [LinearOrder K] [Inhabited K] [Inhabited V] in
/-- **A merge is inside the page** if the elements of both pages fit in one. -/
theorem coalesceWrites_inBounds_iff (hneighbor : s.pages neighbor = some neighborPage)
    (hnode : s.pages node = some nodePage) (hparent : s.pages id = some (.internal parent))
    (hsize : neighborPage.getSize ≤ neighborPage.capacity)
    (hpos : nodePage.isLeafPage = true ∨ 0 < nodePage.getSize)
    (hcap : parent.array.length ≤ internalCapacity) (index : Nat) :
    (∀ w ∈ s.coalesceWrites neighbor node id index, w.InBounds) ↔
      neighborPage.getSize + nodePage.getSize ≤ neighborPage.capacity := by
  have hlast : ∀ w ∈ (parent.removeWrites (index + 1)).map (ArrayWrite.internal id),
      w.InBounds := by
    simp only [List.forall_mem_map, inBounds_internal]
    exact fun i hi => (lt_of_mem_eraseWrites hi).trans_le hcap
  simp only [coalesceWrites, hneighbor, hnode, internalAt_eq hparent]
  rw [List.forall_mem_append, and_iff_left hlast, ← TreePage.forall_moveAllTo_lt hsize hpos]
  simp only [List.forall_mem_map, TreePage.inBounds_element]

omit [LinearOrder K] [Inhabited K] [Inhabited V] in
/-- **A page that borrows** has room for one element. -/
theorem redistributeWrites_inBounds (id : PageId) (hneighbor : s.pages neighbor = some neighborPage)
    (hnode : s.pages node = some nodePage) (hsize : nodePage.getSize < nodePage.capacity)
    (hcap : neighborPage.getSize ≤ neighborPage.capacity) {index : Nat}
    {isPredecessor : Bool}
    (hindex : (if isPredecessor then index else index + 1) < internalCapacity) :
    ∀ w ∈ s.redistributeWrites neighbor node id index isPredecessor, w.InBounds := by
  simp only [redistributeWrites, hneighbor, hnode]
  cases isPredecessor with
  | true =>
    simp only [if_true, List.forall_mem_append, List.forall_mem_map, List.forall_mem_singleton,
      TreePage.inBounds_element, inBounds_internal]
    exact ⟨TreePage.moveLastToFrontOf_lt hsize TreePage.one_lt_capacity, hindex⟩
  | false =>
    simp only [Bool.false_eq_true, if_false, List.cons_append, List.forall_mem_cons,
      List.forall_mem_append, List.forall_mem_map, TreePage.inBounds_element, inBounds_internal]
    exact ⟨hsize, TreePage.moveFirstToEndOf_lt hcap, hindex, fun w hw => absurd hw List.not_mem_nil⟩

omit [LinearOrder K] [Inhabited V] in
/-- The way of an underfull page that is not the root: it is merged with its neighbour, the left
one of the two is kept, or it borrows. -/
theorem coalesceOrRedistributeWrites_eq (hnode : s.pages node = some nodePage)
    (hid : nodePage.getParentPageId = id) (hne : id ≠ invalidPageId)
    (hunder : nodePage.getSize < nodePage.getMinSize)
    (hparent : s.pages id = some (.internal parent)) {i : Nat}
    (hindex : parent.valueIndex node = some i) (hvalue : parent.valueAt (siblingIndex i) = neighbor)
    (hneighbor : s.pages neighbor = some neighborPage) (n : Nat) :
    ∃ left right index, (left = neighbor ∧ right = node ∨ left = node ∧ right = neighbor) ∧
      s.coalesceOrRedistributeWrites (n + 1) node =
        if nodePage.getSize + neighborPage.getSize ≤ nodePage.getMaxSize then
          s.coalesceWrites left right id index ++
            match s.coalesce left right id index with
            | some (true, s) => s.coalesceOrRedistributeWrites n id
            | _ => []
        else s.redistributeWrites neighbor node id i (decide (0 < i)) := by
  have hroot : nodePage.isRootPage = false := by
    simp [TreePage.isRootPage, hid, hne]
  rw [coalesceOrRedistributeWrites]
  simp only [hnode, hroot, Bool.false_eq_true, if_false, if_neg (Nat.not_le.mpr hunder), hid,
    internalAt_eq hparent, hindex]
  by_cases hpos : 0 < i
  · rw [siblingIndex, if_pos hpos] at hvalue
    simp only [hpos, decide_true, if_true, hvalue, hneighbor]
    exact ⟨neighbor, node, i - 1, .inl ⟨rfl, rfl⟩, rfl⟩
  · rw [siblingIndex, if_neg hpos] at hvalue
    simp only [hpos, decide_false, Bool.false_eq_true, if_false, hvalue, hneighbor]
    exact ⟨node, neighbor, i, .inr ⟨rfl, rfl⟩, rfl⟩

end Step

/-! ## The page above -/

section Inner

variable {s s₁ : BPlusTree K V} {id p : PageId} {m : Nat} {l r : List (K × BTree K V h)}
  {b c : K × BTree K V h} {key : K} {kept : TreePage K V}

omit [LinearOrder K] [Inhabited V] in
theorem valueAt_slots_of_getElem? {cs : List (K × BTree K V h)} {i : Nat}
    (hat : cs[i]? = some b) : (⟨m, p, slots cs⟩ : InternalPage K).valueAt i = b.2.id := by
  rw [InternalPage.valueAt, List.getD_eq_getElem?_getD, slots, List.getElem?_map, hat]
  rfl

omit [LinearOrder K] [Inhabited K] [Inhabited V] in
theorem mem_of_siblingIndex (hsibling : (l ++ c :: r)[siblingIndex l.length]? = some b) :
    b ∈ l ++ r := by
  rw [siblingIndex] at hsibling
  split at hsibling
  · rw [List.getElem?_append_left (by omega)] at hsibling
    exact List.mem_append_left _ (List.mem_of_getElem? hsibling)
  · rw [List.getElem?_append_right (by omega), show l.length + 1 - l.length = 0 + 1 by omega,
      List.getElem?_cons_succ] at hsibling
    exact List.mem_append_right _ (List.mem_of_getElem? hsibling)

namespace LostOne

omit [Inhabited K] [Inhabited V] in
/-- The page above the child is as it was. -/
theorem above (hlost : LostOne s s₁ c.2 kept) (hsub : s.Sub (node id m p (l ++ c :: r))) :
    s₁.pages id = some (.internal ⟨m, p, slots (l ++ c :: r)⟩) := by
  rw [hlost.beside.same id hsub.id_alloc.2 fun hmem =>
    hsub.id_not_mem (List.mem_flatMap.mpr ⟨c, List.mem_append_right _ List.mem_cons_self, hmem⟩)]
  exact hsub.page

omit [Inhabited K] [Inhabited V] in
/-- And so is a sibling of the child. -/
theorem sibling (hlost : LostOne s s₁ c.2 kept) (hsub : s.Sub (node id m p (l ++ c :: r)))
    (hb : b ∈ l ++ r) : s₁.pages b.2.id = some b.2.page := by
  have hmem : b ∈ l ++ c :: r := by
    rcases List.mem_append.mp hb with hb | hb
    · exact List.mem_append_left _ hb
    · exact List.mem_append_right _ (List.mem_cons_of_mem _ hb)
  have hbsub := (hsub.child hmem).1
  rw [hlost.beside.same b.2.id (hbsub.alloc _ (id_mem_ids b.2)).2
    (not_mem_ids_of_sibling hsub.children_nodup hb (id_mem_ids b.2))]
  exact hbsub.rep.page

omit [Inhabited V] in
theorem underfull (hlost : LostOne s s₁ c.2 kept) (hunder : Underflows key c.2) :
    kept.getSize < kept.getMinSize := by
  have hle := hunder.size_le
  have hsize := hlost.size
  have hmin : kept.getMinSize = c.2.page.getMinSize := by
    rw [TreePage.getMinSize, TreePage.getMinSize, hlost.kind, hlost.maxSize]
  omega

omit [LinearOrder K] [Inhabited K] [Inhabited V] in
theorem length_remove_slots {index : Nat} :
    ((⟨m, p, slots (l ++ c :: r)⟩ : InternalPage K).remove index).array.length + 1 =
      (l ++ c :: r).length := by
  have hone : 1 ≤ (l ++ c :: r).length := by
    rw [List.length_append, List.length_cons]
    omega
  rw [InternalPage.remove, List.length_take, List.length_eraseIdx, length_slots]
  split <;> omega

omit [LinearOrder K] [Inhabited K] [Inhabited V] in
/-- **The page above has lost a slot**, if only the two children, what moved between them, and it
were written. -/
theorem coalesced (hlost : LostOne s s₁ c.2 kept) (hb : b ∈ l ++ c :: r) {s₂ : BPlusTree K V}
    {index : Nat} (hnext : s₂.nextPageId = s₁.nextPageId)
    (hpage : s₂.pages id =
      some (.internal ((⟨m, p, slots (l ++ c :: r)⟩ : InternalPage K).remove index)))
    (hsame : ∀ q, q ≠ c.2.id → q ≠ b.2.id → q ≠ id → q ∉ kept.children →
      q ∉ b.2.page.children → s₂.pages q = s₁.pages q) :
    LostOne s s₂ (node id m p (l ++ c :: r))
      (.internal ((⟨m, p, slots (l ++ c :: r)⟩ : InternalPage K).remove index)) := by
  have hc : c ∈ l ++ c :: r := List.mem_append_right _ List.mem_cons_self
  -- a page beside the subtree is none of those that are written
  have hids : ∀ x ∈ l ++ c :: r, ∀ q ∈ x.2.ids, q ∈ (node id m p (l ++ c :: r)).ids := by
    intro x hx q hq
    rw [ids_node]
    exact List.mem_cons_of_mem _ (List.mem_flatMap.mpr ⟨x, hx, hq⟩)
  refine ⟨⟨hnext ▸ hlost.beside.next, fun q hlt hq => ?_⟩, hpage, rfl, ?_, rfl, rfl, fun q hq => ?_⟩
  · refine (hsame q ?_ ?_ ?_ (fun hmem => hq (hids c hc q (hlost.children q hmem)))
      fun hmem => hq (hids b hb q (mem_ids_of_mem_children hmem))).trans
        (hlost.beside.same q hlt fun hmem => hq (hids c hc q hmem))
    · exact fun heq => hq (heq ▸ hids c hc c.2.id (id_mem_ids c.2))
    · exact fun heq => hq (heq ▸ hids b hb b.2.id (id_mem_ids b.2))
    · exact fun heq => hq (heq ▸ id_mem_ids (node id m p (l ++ c :: r)))
  · rw [getSize_node]
    exact length_remove_slots
  · obtain ⟨e, he, rfl⟩ := List.mem_map.mp hq
    obtain ⟨x, hx, rfl⟩ := List.mem_map.mp (List.mem_of_mem_eraseIdx (List.mem_of_mem_take he))
    exact hids x hx x.2.id (id_mem_ids x.2)

omit [Inhabited V] in
/-- **The child and its neighbour are merged**: the page above them loses a slot, and the merge is
inside the page if the elements of both fit in one. -/
theorem merge (hlost : LostOne s s₁ c.2 kept) (hsub : s.Sub (node id m p (l ++ c :: r)))
    (hpages : (node id m p (l ++ c :: r)).InPages) (him : 0 < h → 3 ≤ s.internalMaxSize)
    (hb : b ∈ l ++ r) {left right : PageId}
    (hsides : left = b.2.id ∧ right = c.2.id ∨ left = c.2.id ∧ right = b.2.id) (index : Nat) :
    ((∀ w ∈ s₁.coalesceWrites left right id index, w.InBounds) ↔
        kept.getSize + b.2.page.getSize ≤ kept.capacity) ∧
      ∃ s₂ page, s₁.coalesce left right id index =
          some (decide ((l ++ c :: r).length ≤ (m + 1) / 2), s₂) ∧
        LostOne s s₂ (node id m p (l ++ c :: r)) page := by
  have hc : c ∈ l ++ c :: r := List.mem_append_right _ List.mem_cons_self
  have hb' : b ∈ l ++ c :: r := by
    rcases List.mem_append.mp hb with hb | hb
    · exact List.mem_append_left _ hb
    · exact List.mem_append_right _ (List.mem_cons_of_mem _ hb)
  have hpage := hlost.above hsub
  have hneighbor := hlost.sibling hsub hb
  have hkind : kept.isLeafPage = b.2.page.isLeafPage := by
    rw [hlost.kind, isLeafPage_page, isLeafPage_page]
  have hsize := hlost.size
  have hccap : kept.getSize ≤ kept.capacity := by
    have hle := (hpages.child hc).page
    rw [← TreePage.capacity_eq hlost.kind] at hle
    omega
  have hpos : ∀ x ∈ l ++ c :: r, x.2.page.isLeafPage = true ∨ 2 ≤ x.2.page.getSize := fun x hx =>
    (hsub.child hx).2.2.leaf_or_two_le him (hsub.child hx).1.sized
  have hcap : (slots (l ++ c :: r)).length ≤ internalCapacity := hpages.page
  have hlen := @length_remove_slots K V h p m l r c (index + 1)
  have hflag : decide (((⟨m, p, slots (l ++ c :: r)⟩ : InternalPage K).remove
      (index + 1)).array.length < (m + 1) / 2) = decide ((l ++ c :: r).length ≤ (m + 1) / 2) :=
    decide_eq_decide.mpr (by omega)
  rcases hsides with ⟨rfl, rfl⟩ | ⟨rfl, rfl⟩
  · have hpos' : kept.isLeafPage = true ∨ 0 < kept.getSize := by
      rw [hlost.kind]
      exact (hpos c hc).imp_right fun htwo => by omega
    obtain ⟨s₂, hcoalesce, hnext, hpage₂, hsame⟩ :=
      coalesce_beside hneighbor hlost.page hkind.symm hpage index
    rw [hflag] at hcoalesce
    refine ⟨?_, s₂, _, hcoalesce, hlost.coalesced hb' hnext hpage₂ fun q h₁ h₂ h₃ h₄ h₅ =>
      hsame q h₂ h₁ h₃ h₅ h₄⟩
    rw [coalesceWrites_inBounds_iff hneighbor hlost.page hpage (hpages.child hb').page hpos' hcap,
      TreePage.capacity_eq hkind, Nat.add_comm]
  · obtain ⟨s₂, hcoalesce, hnext, hpage₂, hsame⟩ :=
      coalesce_beside hlost.page hneighbor hkind hpage index
    rw [hflag] at hcoalesce
    refine ⟨?_, s₂, _, hcoalesce, hlost.coalesced hb' hnext hpage₂ hsame⟩
    exact coalesceWrites_inBounds_iff hlost.page hneighbor hpage hccap
      ((hpos b hb').imp_right fun htwo => by omega) hcap index

omit [Inhabited V] in
/-- **The step on an underfull child**: a merge is inside the page if the elements of the child and
its neighbour fit in one, and a child that borrows has room. -/
theorem step (hlost : LostOne s s₁ c.2 kept) (hsub : s.Sub (node id m p (l ++ c :: r)))
    (hpages : (node id m p (l ++ c :: r)).InPages) (him : 0 < h → 3 ≤ s.internalMaxSize)
    (hsibling : (l ++ c :: r)[siblingIndex l.length]? = some b)
    (hunder : kept.getSize < kept.getMinSize) (n : Nat) :
    ∃ ws s₂ page, s₁.coalesceOrRedistributeWrites (n + 1) c.2.id = ws ++
          (if kept.getSize + b.2.page.getSize ≤ kept.getMaxSize ∧
            (l ++ c :: r).length ≤ (m + 1) / 2 then s₂.coalesceOrRedistributeWrites n id else []) ∧
      ((∀ w ∈ ws, w.InBounds) ↔ (kept.getSize + b.2.page.getSize ≤ kept.getMaxSize →
        kept.getSize + b.2.page.getSize ≤ kept.capacity)) ∧
      (kept.getSize + b.2.page.getSize ≤ kept.getMaxSize →
        LostOne s s₂ (node id m p (l ++ c :: r)) page) := by
  have hb := mem_of_siblingIndex hsibling
  have hb' : b ∈ l ++ c :: r := List.mem_of_getElem? hsibling
  have hc : c ∈ l ++ c :: r := List.mem_append_right _ List.mem_cons_self
  have hid : id ≠ invalidPageId := by
    rintro rfl
    exact absurd hsub.id_alloc.1 (by decide)
  obtain ⟨left, right, index, hsides, hrun⟩ :=
    coalesceOrRedistributeWrites_eq hlost.page (hlost.parent.trans (hsub.child hc).2.1) hid hunder
      (hlost.above hsub) (@valueIndex_slots K V h m p l r c hsub.distinct.1)
      (valueAt_slots_of_getElem? hsibling) (hlost.sibling hsub hb) n
  by_cases hmerge : kept.getSize + b.2.page.getSize ≤ kept.getMaxSize
  · obtain ⟨hwrites, s₂, page, hcoalesce, hlost₂⟩ := hlost.merge hsub hpages him hb hsides index
    refine ⟨s₁.coalesceWrites left right id index, s₂, page, ?_, ?_, fun _ => hlost₂⟩
    · rw [hrun, if_pos hmerge, hcoalesce]
      by_cases hlt : (l ++ c :: r).length ≤ (m + 1) / 2
      · rw [decide_eq_true hlt, if_pos ⟨hmerge, hlt⟩]
      · rw [decide_eq_false hlt, if_neg fun hboth => hlt hboth.2]
    · rw [hwrites, forall_prop_of_true hmerge]
  · have hroom : kept.getSize < kept.capacity := by
      have hle := (hpages.child hc).page
      rw [← TreePage.capacity_eq hlost.kind, ← hlost.size] at hle
      exact hle
    have hindex : (if decide (0 < l.length) then l.length else l.length + 1) <
        internalCapacity := by
      have hcap : (slots (l ++ c :: r)).length ≤ internalCapacity := hpages.page
      rw [length_slots, List.length_append, List.length_cons] at hcap
      by_cases hpos : 0 < l.length
      · rw [decide_eq_true hpos, if_pos rfl]
        omega
      · rw [decide_eq_false hpos, if_neg Bool.false_ne_true, Nat.eq_zero_of_not_pos hpos]
        decide
    have hborrow := redistributeWrites_inBounds id (hlost.sibling hsub hb) hlost.page hroom
      (hpages.child hb').page hindex
    refine ⟨_, s₁, kept, ?_, iff_of_true hborrow fun hle => absurd hle hmerge,
      fun hle => absurd hle hmerge⟩
    rw [hrun, if_neg hmerge, if_neg fun hboth => hmerge hboth.1, List.append_nil]

end LostOne

omit [Inhabited V] in
/-- **`CoalesceOrRedistribute`** on the child that the key was removed from. -/
theorem coalesceOrRedistributeWrites_spec (hsub : s.Sub (node id m p (l ++ c :: r)))
    (hpages : (node id m p (l ++ c :: r)).InPages) (him : 3 ≤ s.internalMaxSize)
    (hslot : slotOf key (l ++ c :: r) = l.length)
    (hsibling : (l ++ c :: r)[siblingIndex l.length]? = some b) (hunder : Underflows key c.2)
    (hlost : LostOne s s₁ c.2 kept) {ws : List ArrayWrite}
    (hws : (∀ w ∈ ws, w.InBounds) ↔ ¬ Spills key c.2) (n : Nat) :
    RemoveWritten s key (node id m p (l ++ c :: r)) n
      (ws ++ s₁.coalesceOrRedistributeWrites (n + 1) c.2.id) := by
  obtain ⟨ws', s₂, page, hrun, hwrites, hlost₂⟩ :=
    hlost.step hsub hpages (fun _ => him) hsibling (hlost.underfull hunder) n
  have hmergeable : kept.getSize + b.2.page.getSize ≤ kept.getMaxSize ↔ c.2.Mergeable b.2 := by
    rw [Mergeable, hlost.maxSize, ← hlost.size, Nat.add_sub_cancel]
  have hunderflows : Underflows key (node id m p (l ++ c :: r)) ↔
      kept.getSize + b.2.page.getSize ≤ kept.getMaxSize ∧ (l ++ c :: r).length ≤ (m + 1) / 2 := by
    rw [underflows_node hslot hsibling, and_iff_right hunder, hmergeable]
  have hall : (∀ w ∈ ws ++ ws', w.InBounds) ↔ ¬ Spills key (node id m p (l ++ c :: r)) := by
    rw [List.forall_mem_append, hws, hwrites, spills_node hslot hsibling, and_iff_right hunder,
      ← hmergeable, ← TreePage.capacity_eq hlost.kind, ← hlost.size, Nat.add_sub_cancel, not_or,
      not_and, Nat.not_lt]
  rw [hrun, ← List.append_assoc]
  by_cases hu : Underflows key (node id m p (l ++ c :: r))
  · rw [if_pos (hunderflows.mp hu)]
    exact .under hu hall (hlost₂ (hunderflows.mp hu).1)
  · rw [if_neg fun hboth => hu (hunderflows.mpr hboth), List.append_nil]
    exact .done hu hall

end Inner

/-! ## `Remove` -/

/-- What `Remove` writes from a page that is fetched. -/
def removeFromWrites (s : BPlusTree K V) (m n : Nat) (p : PageId) (key : K) : List ArrayWrite :=
  match s.findLeaf .write (·.lookup key) m p with
  | none => []
  | some (leafPageId, s) => s.removeFromLeafWrites n leafPageId key

/-- **What `Remove` writes below a page**, by induction on the height. -/
theorem removeFromWrites_spec (key : K) : ∀ {h : Nat} {t : BTree K V h} {s : BPlusTree K V},
    s.Sub t → t.RootMin → t.InPages → 2 ≤ s.leafMaxSize → 3 ≤ s.internalMaxSize →
    s.log.Ok [(t.id, .write)] → ∀ m n : Nat,
    RemoveWritten s key t n (s.removeFromWrites (m + h + 1) (n + h) t.id key)
  | 0, t, s, hsub, hmin, hpages, hlm, him, hlog, m, n => by
    obtain ⟨id, page, rfl⟩ := t.exists_leaf
    have hrun : s.removeFromWrites (m + 0 + 1) (n + 0) (leaf id page).id key =
        s.removeFromLeafWrites n id key := by
      rw [removeFromWrites, findLeaf_leaf
        (show s.pages (leaf id page).id = some (.leaf page) from hsub.rep.page)]
      rfl
    rw [hrun]
    exact removeFromLeafWrites_spec hsub hpages key n
  | h + 1, t, s, hsub, hmin, hpages, hlm, him, hlog, m, n => by
    obtain ⟨id, im, p, cs, rfl⟩ := t.exists_node
    obtain ⟨l, c, r, hdown⟩ := hsub.exists_descent hlog key
    have hrun : s.removeFromWrites (m + (h + 1) + 1) (n + (h + 1)) id key =
        (s.descended .write id c.2.id).removeFromWrites (m + h + 1) (n + 1 + h) c.2.id key := by
      rw [removeFromWrites, findLeaf_node hsub.page, hdown.lookup,
        show n + (h + 1) = n + 1 + h by omega]
      rfl
    have hslot : slotOf key cs = l.length := hdown.index
    have htwo : 2 ≤ cs.length := rootMin_node.mp hmin
    obtain ⟨rfl, -, -⟩ := hdown.route
    have hc : c ∈ l ++ c :: r := List.mem_append_right _ List.mem_cons_self
    have ih := removeFromWrites_spec key hdown.child
      (hdown.fits.rootMin hlm him hdown.child.sized) (hpages.child hc) hlm him hdown.log m (n + 1)
    rw [← hrun] at ih
    obtain ⟨b, hsibling⟩ := exists_sibling htwo
    show RemoveWritten s key (node id im p (l ++ c :: r)) n
      (s.removeFromWrites (m + (h + 1) + 1) (n + (h + 1)) id key)
    generalize s.removeFromWrites (m + (h + 1) + 1) (n + (h + 1)) id key = ws at ih ⊢
    cases ih with
    | done hunder hws =>
      refine .done (fun hu => hunder ((underflows_node hslot hsibling).mp hu).1.1) ?_
      rw [hws, spills_node hslot hsibling]
      exact not_congr (or_iff_left fun hboth => hunder hboth.1).symm
    | under hunder hws hlost =>
      have hlost' : LostOne s _ c.2 _ := ⟨⟨hlost.beside.next, hlost.beside.same⟩, hlost.page,
        hlost.kind, hlost.size, hlost.maxSize, hlost.parent, hlost.children⟩
      exact coalesceOrRedistributeWrites_spec hsub hpages him hslot hsibling hunder hlost' hws n

omit [LinearOrder K] [Inhabited V] in
/-- `AdjustRoot` writes no element. -/
theorem coalesceOrRedistributeWrites_root {s : BPlusTree K V} {id : PageId} {page : TreePage K V}
    (hpage : s.pages id = some page) (hroot : page.getParentPageId = invalidPageId) (n : Nat) :
    s.coalesceOrRedistributeWrites n id = [] := by
  cases n with
  | zero => rfl
  | succ n =>
    have hroot' : page.isRootPage = true := decide_eq_true hroot
    rw [coalesceOrRedistributeWrites]
    simp only [hpage, hroot', if_true]

/-- **The elements that `Remove` writes** are inside their pages if and only if no merge spills. -/
theorem removeWrites_inBounds_iff {s : BPlusTree K V} {t : BTree K V h} (hwf : s.WellFormed t)
    (hmin : s.RootMin) (hpages : t.InPages) (hlm : 2 ≤ s.leafMaxSize)
    (him : 3 ≤ s.internalMaxSize) (hlog : s.log.Ok []) (key : K) {fuel : Nat}
    (hfuel : h + 1 ≤ fuel) : (∀ w ∈ s.removeWrites fuel key, w.InBounds) ↔ ¬ Spills key t := by
  have hrun : s.removeWrites fuel key =
      (s.fetchPage t.id .write).removeFromWrites fuel fuel t.id key := by
    rw [removeWrites, hwf.not_isEmpty, ← hwf.root]
    rfl
  have hmin' := (rootMin_iff hwf.root (hwf.root ▸ hwf.root_ne) hwf.rep).mp hmin
  have hsub : (s.fetchPage t.id .write).Sub t := (hwf.setLog (.acquire t.id .write :: s.log)).sub
  have hspec := removeFromWrites_spec key hsub hmin' hpages hlm him
    (hlog.acquire fun _ hg => absurd hg List.not_mem_nil) (fuel - h - 1) (fuel - h)
  rw [show fuel - h - 1 + h + 1 = fuel by omega, show fuel - h + h = fuel by omega] at hspec
  rw [hrun]
  generalize (s.fetchPage t.id .write).removeFromWrites fuel fuel t.id key = ws at hspec ⊢
  cases hspec with
  | done _ hws => exact hws
  | under _ hws hlost =>
    rwa [coalesceOrRedistributeWrites_root hlost.page (hlost.parent.trans hwf.parent),
      List.append_nil]

/-! ## Two leaves that do not fit in one -/

/-- 200 entries. -/
def entriesFrom (key : Int) : List (Int × RID) := (List.range 200).map fun i : Nat => (key + i, {})

/-- Each leaf has as few entries as it may have with a maximum of 400. -/
def wideTree : BTree Int RID 1 :=
  node 2 3 invalidPageId
    [(0, leaf 0 ⟨400, 2, 1, entriesFrom 0⟩), (200, leaf 1 ⟨400, 2, invalidPageId, entriesFrom 200⟩)]

theorem length_entriesFrom (key : Int) : (entriesFrom key).length = 200 := by
  rw [entriesFrom, List.length_map, List.length_range]

theorem increasing_entriesFrom (key : Int) : Increasing (entriesFrom key) := by
  rw [entriesFrom, Increasing, List.pairwise_map]
  exact List.pairwise_lt_range.imp fun hlt => Int.add_lt_add_left (Int.ofNat_lt.mpr hlt) key

theorem mem_entriesFrom {key k : Int} (hk : k ∈ (entriesFrom key).map Prod.fst) :
    key ≤ k ∧ k < key + 200 := by
  rw [entriesFrom, List.map_map] at hk
  obtain ⟨i, hi, rfl⟩ := List.mem_map.mp hk
  have hlt := List.mem_range.mp hi
  show key ≤ key + (i : Int) ∧ key + (i : Int) < key + 200
  omega

theorem wideTree_wellFormed : (ofTree wideTree 400 3 3).WellFormed wideTree := by
  have hfits : ∀ (id next : PageId) (key : Int),
      (leaf id ⟨400, 2, next, entriesFrom key⟩ : BTree Int RID 0).Fits := by
    intro id next key
    have hlen := length_entriesFrom key
    refine fits_leaf.mpr ⟨?_, ?_⟩
    · show 400 / 2 ≤ (entriesFrom key).length
      omega
    · show (entriesFrom key).length ≤ 400
      omega
  have hkeys : ∀ (id next : PageId) (key : Int), ∀ k ∈
      (leaf id ⟨400, 2, next, entriesFrom key⟩ : BTree Int RID 0).keys,
        key ≤ k ∧ k < key + 200 := by
    intro id next key k hk
    rw [keys, entries_leaf] at hk
    exact mem_entriesFrom hk
  refine wellFormed_ofTree (by decide) (by decide) rfl (by decide) ?_ ?_ (by decide)
  · refine sized_node.mpr ⟨rfl, List.cons_ne_nil _ _, ?_⟩
    simp only [List.forall_mem_cons]
    exact ⟨⟨hfits .., rfl⟩, ⟨hfits .., rfl⟩, fun _ hc => absurd hc List.not_mem_nil⟩
  · refine ordered_node.mpr ⟨⟨List.pairwise_singleton _ _, ?_, ?_⟩, ?_⟩
    · refine List.pairwise_cons.mpr ⟨fun b hb k hk => ?_, List.pairwise_singleton _ _⟩
      rw [List.mem_singleton.mp hb]
      exact (hkeys _ _ _ k hk).2
    · intro c hc k hk
      rw [List.mem_singleton.mp hc] at hk ⊢
      exact (hkeys _ _ _ k hk).1
    · simp only [List.forall_mem_cons]
      exact ⟨increasing_entriesFrom 0, increasing_entriesFrom 200,
        fun _ hc => absurd hc List.not_mem_nil⟩

theorem wideTree_rootMin : (ofTree wideTree 400 3 3).RootMin :=
  (rootMin_iff wideTree_wellFormed.root (wideTree_wellFormed.root ▸ wideTree_wellFormed.root_ne)
    wideTree_wellFormed.rep).mpr (by decide)

theorem wideTree_inPages : wideTree.InPages := by
  intro e he
  have hcase : e = (2, .internal ⟨3, invalidPageId, [(0, 0), (200, 1)]⟩) ∨
      (∃ id next key, e = (id, .leaf ⟨400, 2, next, entriesFrom key⟩)) := by
    rcases List.mem_cons.mp he with rfl | he
    · exact .inl rfl
    · rcases List.mem_cons.mp he with rfl | he
      · exact .inr ⟨_, _, _, rfl⟩
      · exact .inr ⟨_, _, _, List.mem_singleton.mp he⟩
  rcases hcase with rfl | ⟨id, next, key, rfl⟩
  · decide
  · show (entriesFrom key).length ≤ leafCapacity
    rw [length_entriesFrom]
    decide

/-- **The removal of one entry** merges the leaves: 399 entries are more than fit in a page. -/
theorem wideTree_spills : Spills 0 wideTree := by
  have hpair : ∀ left right : List (Int × RID), (0 : Int) ∈ left.map Prod.fst →
      left.length = 200 → right.length = 200 → Spills 0 (node 2 3 invalidPageId
        [(0, leaf 0 ⟨400, 2, 1, left⟩), (200, leaf 1 ⟨400, 2, invalidPageId, right⟩)]) := by
    intro left right hmem hleft hright
    have hslot : (⟨0, invalidPageId, [(0, 0), (200, 1)]⟩ : InternalPage Int).lookupIndex 0 = 0 := by
      decide
    refine (@spills_node Int RID 0 _ _ 2 invalidPageId 3 []
      [(200, leaf 1 ⟨400, 2, invalidPageId, right⟩)] (200, leaf 1 ⟨400, 2, invalidPageId, right⟩)
      (0, leaf 0 ⟨400, 2, 1, left⟩) 0 hslot rfl).mpr (.inr ⟨⟨hmem, ?_⟩, ?_, ?_⟩)
    · show left.length ≤ 400 / 2
      omega
    · show left.length - 1 + right.length ≤ 400
      omega
    · show 339 < left.length - 1 + right.length
      omega
  refine hpair _ _ ?_ (length_entriesFrom 0) (length_entriesFrom 200)
  rw [entriesFrom, List.map_map]
  exact List.mem_map.mpr ⟨0, by decide, rfl⟩

end BPlusTree

end OneBase
