import OneBase.Index.RemoveSteps

/-!
# Borrowing between internal pages

A search passes children and separators from left to right. When an internal page borrows a
child from its neighbour, the child, the separator above the two pages and the separator
next to the child should rotate, so that the sequence through both pages stays the same.

- `BPlusTree.inOrder`: the sequence through two neighbours and the separator between them.
- `redistribute_successor_inOrder_iff`, `redistribute_predecessor_inOrder_iff`: when
  `Redistribute` keeps it.
-/

namespace OneBase

/-- What a search passes in an internal page: a child, or the separator of two children. -/
inductive Waypoint (K : Type) where
  | child (pageId : PageId)
  | separator (key : K)
  deriving DecidableEq

/-- The slots of an internal page, each as its key and its child. -/
def waypoints {K : Type} (array : List (K × PageId)) : List (Waypoint K) :=
  array.flatMap fun e => [.separator e.1, .child e.2]

namespace InternalPage

variable {K : Type}

/-- Child, key, child, and so on: slot 0 has no key. -/
def inOrder (page : InternalPage K) : List (Waypoint K) := (waypoints page.array).tail

/-- The sizes under which `CoalesceOrRedistribute` lets a page borrow from its neighbour. -/
def BorrowsFrom (node sibling : InternalPage K) : Prop :=
  node.array.length < (node.maxSize + 1) / 2 ∧
    node.maxSize < node.array.length + sibling.array.length

instance (node sibling : InternalPage K) : Decidable (node.BorrowsFrom sibling) :=
  inferInstanceAs (Decidable (_ ∧ _))

end InternalPage

section Waypoints

variable {K : Type} {e e' : K × PageId} {array rest : List (K × PageId)}

@[simp] theorem waypoints_cons :
    waypoints (e :: rest) = .separator e.1 :: .child e.2 :: waypoints rest := rfl

@[simp] theorem waypoints_append :
    waypoints (array ++ rest) = waypoints array ++ waypoints rest := List.flatMap_append

theorem length_waypoints : (waypoints array).length = 2 * array.length := by
  induction array with
  | nil => rfl
  | cons e array ih =>
    rw [waypoints_cons, List.length_cons, List.length_cons, ih, List.length_cons]
    omega

/-- What is appended to a page that has a child comes after its sequence. -/
theorem tail_waypoints_append (hne : array ≠ []) :
    (waypoints (array ++ rest)).tail = (waypoints array).tail ++ waypoints rest := by
  obtain ⟨e, array, rfl⟩ := List.exists_cons_of_ne_nil hne
  rw [waypoints_append, waypoints_cons]
  rfl

end Waypoints

/-! ## What the two moves do to the sequence -/

namespace InternalPage

section Moves

variable {K : Type} [Inhabited K] {node sibling : InternalPage K}

/-- **To the end of the left page.** The key that should go up is the one of slot 1, but the
one of slot 2 goes up and stays in its page too. -/
theorem moveFirstToEndOf_inOrder_iff (hlen : 2 ≤ sibling.array.length)
    (hthree : node.array ≠ [] → 3 ≤ sibling.array.length) (key : K) :
    (sibling.moveFirstToEndOf node key).2.inOrder ++
          .separator ((sibling.moveFirstToEndOf node key).1.keyAt 1) ::
            (sibling.moveFirstToEndOf node key).1.inOrder =
        node.inOrder ++ .separator key :: sibling.inOrder ↔
      node.array ≠ [] ∧ sibling.keyAt 1 = sibling.keyAt 2 := by
  obtain ⟨e₀, e₁, rest, harray⟩ : ∃ e₀ e₁ rest, sibling.array = e₀ :: e₁ :: rest := by
    match harray : sibling.array with
    | [] | [_] => simp [harray] at hlen
    | e₀ :: e₁ :: rest => exact ⟨e₀, e₁, rest, rfl⟩
  have hvalue : sibling.valueAt 0 = e₀.2 := by simp [valueAt, harray]
  by_cases hnode : node.array = []
  · -- a page without children gains a child, but no separator
    refine iff_of_false (fun heq => ?_) fun h => h.1 hnode
    have hcount := congrArg List.length heq
    simp only [moveFirstToEndOf, inOrder, hnode, harray, List.length_append, List.length_cons,
      List.length_tail, length_waypoints, List.length_nil] at hcount
    omega
  · obtain ⟨e₂, rest, rfl⟩ : ∃ e₂ rest', rest = e₂ :: rest' := by
      have hthree := hthree hnode
      cases rest with
      | nil => simp [harray] at hthree
      | cons e₂ rest => exact ⟨e₂, rest, rfl⟩
    have hafter : (sibling.moveFirstToEndOf node key).2.inOrder =
        node.inOrder ++ [.separator key, .child e₀.2] := by
      show (waypoints (node.array ++ [(key, sibling.valueAt 0)])).tail = _
      rw [tail_waypoints_append hnode, hvalue]
      rfl
    have hkey : (sibling.moveFirstToEndOf node key).1.keyAt 1 = e₂.1 := by
      simp [moveFirstToEndOf, keyAt, harray]
    have hrest : (sibling.moveFirstToEndOf node key).1.inOrder =
        .child e₁.2 :: waypoints (e₂ :: rest) := by
      simp [moveFirstToEndOf, inOrder, harray]
    have hbefore : sibling.inOrder =
        .child e₀.2 :: .separator e₁.1 :: .child e₁.2 :: waypoints (e₂ :: rest) := by
      simp [inOrder, harray]
    have hkeys : sibling.keyAt 1 = e₁.1 ∧ sibling.keyAt 2 = e₂.1 := by simp [keyAt, harray]
    rw [hafter, hkey, hrest, hbefore, hkeys.1, hkeys.2]
    simp only [List.append_assoc, List.append_cancel_left_eq, List.cons_append, List.nil_append,
      List.cons.injEq, Waypoint.separator.injEq, true_and, and_true]
    exact ⟨fun heq => ⟨hnode, heq.symm⟩, fun h => h.2.symm⟩

/-- **To the front of the right page.** The child that moves comes after the first child, and
the separator that should go up is dropped. -/
theorem moveLastToFrontOf_inOrder_iff (hlen : 2 ≤ sibling.array.length) (key : K) :
    (sibling.moveLastToFrontOf node key).1.inOrder ++
          .separator ((sibling.moveLastToFrontOf node key).2.keyAt 1) ::
            (sibling.moveLastToFrontOf node key).2.inOrder =
        sibling.inOrder ++ .separator key :: node.inOrder ↔
      node.array ≠ [] ∧ sibling.keyAt (sibling.array.length - 1) = key ∧
        sibling.valueAt (sibling.array.length - 1) = node.valueAt 0 := by
  obtain ⟨array, e, harray⟩ : ∃ array e, sibling.array = array ++ [e] := by
    rcases List.eq_nil_or_concat sibling.array with hnil | ⟨array, e, heq⟩
    · simp [hnil] at hlen
    · exact ⟨array, e, by simpa using heq⟩
  have hne : array ≠ [] := by
    rintro rfl
    simp [harray] at hlen
  have hlast : sibling.keyAt (sibling.array.length - 1) = e.1 ∧
      sibling.valueAt (sibling.array.length - 1) = e.2 := by
    simp [keyAt, valueAt, harray, List.getD_eq_getElem?_getD]
  rw [hlast.1, hlast.2]
  cases hnode : node.array with
  | nil =>
    refine iff_of_false (fun heq => ?_) fun h => h.1 rfl
    have hcount := congrArg List.length heq
    have hpos := List.length_pos_iff.mpr hne
    simp only [moveLastToFrontOf, inOrder, hnode, harray, List.length_append, List.length_cons,
      List.length_tail, length_waypoints, List.length_nil, List.dropLast_concat] at hcount
    omega
  | cons f rest =>
    have hafter : (sibling.moveLastToFrontOf node key).1.inOrder = (waypoints array).tail := by
      simp [moveLastToFrontOf, inOrder, harray]
    have hkey : (sibling.moveLastToFrontOf node key).2.keyAt 1 = key := by
      simp [moveLastToFrontOf, keyAt, hnode]
    have hrest : (sibling.moveLastToFrontOf node key).2.inOrder =
        .child f.2 :: .separator key :: .child e.2 :: waypoints rest := by
      unfold moveLastToFrontOf inOrder
      rw [hnode, hlast.2]
      rfl
    have hbefore : sibling.inOrder =
        (waypoints array).tail ++ [.separator e.1, .child e.2] := by
      show (waypoints sibling.array).tail = _
      rw [harray, tail_waypoints_append hne]
      rfl
    have hfirst : node.inOrder = .child f.2 :: waypoints rest := by
      simp [inOrder, hnode]
    have hvalue : node.valueAt 0 = f.2 := by simp [valueAt, hnode]
    rw [hafter, hkey, hrest, hbefore, hfirst, hvalue]
    simp only [List.append_assoc, List.append_cancel_left_eq, List.cons_append, List.nil_append,
      List.cons.injEq, Waypoint.separator.injEq, Waypoint.child.injEq, true_and, and_true, ne_eq,
      reduceCtorEq, not_false_iff]
    constructor
    · rintro ⟨hkey, hchild, -⟩
      exact ⟨hkey.symm, hchild.symm⟩
    · rintro ⟨hkey, hchild⟩
      exact ⟨hkey.symm, hchild.symm, hchild⟩

omit [Inhabited K] in
/-- A page borrows from one that has more children than it. -/
theorem BorrowsFrom.sizes (h : node.BorrowsFrom sibling) :
    2 ≤ sibling.array.length ∧ (node.array ≠ [] → 3 ≤ sibling.array.length) := by
  obtain ⟨hunder, hmore⟩ := h
  refine ⟨by omega, fun hne => ?_⟩
  have hpos := List.length_pos_iff.mpr hne
  omega

end Moves

end InternalPage

namespace BPlusTree

variable {K V : Type}

/-- The sequence through the pages `left` and `right`, which have the slots `i` and `i + 1`
of the page above them. -/
def inOrder (s : BPlusTree K V) [Inhabited K] (parentPageId left right : PageId) (i : Nat) :
    Option (List (Waypoint K)) := do
  let parent ← s.internalAt parentPageId
  let leftPage ← s.internalAt left
  let rightPage ← s.internalAt right
  return leftPage.inOrder ++ .separator (parent.keyAt (i + 1)) :: rightPage.inOrder

/-- Two internal pages in the slots `i` and `i + 1` of the page above them. -/
structure Siblings (s : BPlusTree K V) (parentPageId left right : PageId) (i : Nat)
    (parent leftPage rightPage : InternalPage K) : Prop where
  parent_page : s.pages parentPageId = some (.internal parent)
  left_page : s.pages left = some (.internal leftPage)
  right_page : s.pages right = some (.internal rightPage)
  left_slot : parent.array[i]?.map Prod.snd = some left
  right_slot : parent.array[i + 1]?.map Prod.snd = some right
  left_parent : leftPage.parentPageId = parentPageId
  right_parent : rightPage.parentPageId = parentPageId
  distinct : [parentPageId, left, right].Nodup

/-! ## The pages after the step -/

section Pages

variable [Inhabited K] [Inhabited V] {s : BPlusTree K V}
  {parentPageId left right : PageId} {i : Nat} {parent leftPage rightPage : InternalPage K}

theorem keyAt_setKeyAt {page : InternalPage K} {index : Nat} {e : K × PageId}
    (hslot : page.array[index]? = some e) (key : K) :
    (page.setKeyAt index key).keyAt index = key := by
  show ((page.array.modify index _).getD index default).1 = key
  rw [List.getD_eq_getElem?_getD, List.getElem?_modify_eq, hslot]
  rfl

omit [Inhabited K] [Inhabited V] in
/-- `SetParentPageId` of a child leaves the slots of every page as they are. -/
theorem internalAt_setParent {p : PageId} {page : InternalPage K}
    (hpage : s.pages p = some (.internal page)) (q child : PageId) :
    ∃ page', (s.setParent q child).internalAt p = some page' ∧ page'.array = page.array := by
  by_cases hp : p = child
  · subst hp
    refine ⟨{ page with parentPageId := q }, ?_, rfl⟩
    refine internalAt_eq ?_
    show Function.update s.pages p ((s.pages p).map _) p = _
    rw [Function.update_self, hpage]
    rfl
  · refine ⟨page, internalAt_eq ?_, rfl⟩
    exact (Function.update_of_ne hp _ _).trans hpage

omit [Inhabited V] in
theorem inOrder_eq (hparent : s.pages parentPageId = some (.internal parent))
    (hleft : s.pages left = some (.internal leftPage))
    (hright : s.pages right = some (.internal rightPage)) (i : Nat) :
    s.inOrder parentPageId left right i =
      some (leftPage.inOrder ++ .separator (parent.keyAt (i + 1)) :: rightPage.inOrder) := by
  simp only [inOrder, internalAt_eq hparent, internalAt_eq hleft, internalAt_eq hright,
    Option.bind_eq_bind, Option.bind_some]
  rfl

omit [Inhabited V] in
theorem inOrder_setParent (hparent : s.pages parentPageId = some (.internal parent))
    (hleft : s.pages left = some (.internal leftPage))
    (hright : s.pages right = some (.internal rightPage)) (i : Nat) (q child : PageId) :
    (s.setParent q child).inOrder parentPageId left right i =
      some (leftPage.inOrder ++ .separator (parent.keyAt (i + 1)) :: rightPage.inOrder) := by
  obtain ⟨parent', hparent', hkeys⟩ := internalAt_setParent hparent q child
  obtain ⟨leftPage', hleft', hl⟩ := internalAt_setParent hleft q child
  obtain ⟨rightPage', hright', hr⟩ := internalAt_setParent hright q child
  simp only [inOrder, hparent', hleft', hright', Option.bind_eq_bind, Option.bind_some,
    InternalPage.inOrder, InternalPage.keyAt, hkeys, hl, hr]
  rfl

namespace Siblings

omit [Inhabited K] [Inhabited V] in
/-- The slot of the right page has the separator of the two. -/
theorem exists_slot (hs : s.Siblings parentPageId left right i parent leftPage rightPage) :
    ∃ e, parent.array[i + 1]? = some e := by
  have hslot := hs.right_slot
  cases he : parent.array[i + 1]? with
  | none =>
    rw [he] at hslot
    cases hslot
  | some e => exact ⟨e, rfl⟩

omit [Inhabited K] [Inhabited V] in
theorem ne (hs : s.Siblings parentPageId left right i parent leftPage rightPage) :
    parentPageId ≠ left ∧ parentPageId ≠ right ∧ left ≠ right := by
  have hnodup := hs.distinct
  simp only [List.nodup_cons, List.mem_cons, List.not_mem_nil, or_false, not_or, not_false_iff,
    List.nodup_nil, and_true] at hnodup
  exact ⟨hnodup.1.1, hnodup.1.2, hnodup.2⟩

end Siblings

/-- **`Redistribute` between internal pages**, to the left page. -/
theorem redistribute_successor (hs : s.Siblings parentPageId left right i parent leftPage rightPage)
    {rightPage' leftPage' : InternalPage K}
    (hmove : rightPage.moveFirstToEndOf leftPage (parent.keyAt (i + 1)) = (rightPage', leftPage')) :
    ∃ s', s.redistribute right left i false = some s' ∧
      s'.inOrder parentPageId left right i =
        some (leftPage'.inOrder ++ .separator (rightPage'.keyAt 1) :: rightPage'.inOrder) ∧
      ∃ page, s'.internalAt left = some page ∧ page.array = leftPage'.array := by
  obtain ⟨hpl, hpr, hlr⟩ := hs.ne
  obtain ⟨e, hslot⟩ := hs.exists_slot
  have hparent : (s.fetchPage parentPageId .write).internalAt parentPageId = some parent :=
    internalAt_eq hs.parent_page
  have hleft : (s.fetchPage parentPageId .write).internalAt left = some leftPage :=
    internalAt_eq hs.left_page
  have hright : (s.fetchPage parentPageId .write).internalAt right = some rightPage :=
    internalAt_eq hs.right_page
  -- the store when the child is fetched
  generalize hstore : (((s.fetchPage parentPageId .write).write left (.internal leftPage')).write
    right (.internal rightPage')).write parentPageId
      (.internal (parent.setKeyAt (i + 1) (rightPage'.keyAt 1))) = store
  have hpages : store.pages = borrowedPages s.pages left right parentPageId (.internal leftPage')
      (.internal rightPage') (.internal (parent.setKeyAt (i + 1) (rightPage'.keyAt 1))) := by
    subst hstore
    rfl
  have hleft' : store.pages left = some (.internal leftPage') :=
    hpages ▸ borrowedPages_node hpl.symm hlr
  have hrun : s.redistribute right left i false =
      some ((store.setParent leftPage'.parentPageId
        (leftPage'.valueAt (leftPage'.array.length - 1))).drop parentPageId .write) := by
    subst hstore
    simp only [redistribute, hs.left_page, Option.bind_eq_bind, Option.bind_some,
      TreePage.isLeafPage, TreePage.getParentPageId, hs.left_parent, redistributeInternal, hparent,
      hleft, hright, hmove, Bool.false_eq_true, if_false]
    rfl
  obtain ⟨page, hpage, harray⟩ := internalAt_setParent hleft' leftPage'.parentPageId
    (leftPage'.valueAt (leftPage'.array.length - 1))
  refine ⟨_, hrun, ?_, page, hpage, harray⟩
  show (store.setParent _ _).inOrder parentPageId left right i = _
  rw [inOrder_setParent (hpages ▸ borrowedPages_self) hleft'
    (hpages ▸ borrowedPages_sibling hpr.symm), keyAt_setKeyAt hslot]

/-- **`Redistribute` between internal pages**, to the right page. -/
theorem redistribute_predecessor
    (hs : s.Siblings parentPageId left right i parent leftPage rightPage)
    {rightPage' leftPage' : InternalPage K}
    (hmove : leftPage.moveLastToFrontOf rightPage (parent.keyAt (i + 1)) =
      (leftPage', rightPage')) :
    ∃ s', s.redistribute left right (i + 1) true = some s' ∧
      s'.inOrder parentPageId left right i =
        some (leftPage'.inOrder ++ .separator (rightPage'.keyAt 1) :: rightPage'.inOrder) ∧
      ∃ page, s'.internalAt right = some page ∧ page.array = rightPage'.array := by
  obtain ⟨hpl, hpr, hlr⟩ := hs.ne
  obtain ⟨e, hslot⟩ := hs.exists_slot
  have hparent : (s.fetchPage parentPageId .write).internalAt parentPageId = some parent :=
    internalAt_eq hs.parent_page
  have hleft : (s.fetchPage parentPageId .write).internalAt left = some leftPage :=
    internalAt_eq hs.left_page
  have hright : (s.fetchPage parentPageId .write).internalAt right = some rightPage :=
    internalAt_eq hs.right_page
  -- the store when the child is fetched
  generalize hstore : (((s.fetchPage parentPageId .write).write right (.internal rightPage')).write
    left (.internal leftPage')).write parentPageId
      (.internal (parent.setKeyAt (i + 1) (rightPage'.keyAt 1))) = store
  have hpages : store.pages = borrowedPages s.pages right left parentPageId (.internal rightPage')
      (.internal leftPage') (.internal (parent.setKeyAt (i + 1) (rightPage'.keyAt 1))) := by
    subst hstore
    rfl
  have hright' : store.pages right = some (.internal rightPage') :=
    hpages ▸ borrowedPages_node hpr.symm hlr.symm
  have hrun : s.redistribute left right (i + 1) true =
      some ((store.setParent rightPage'.parentPageId (rightPage'.valueAt 0)).drop
        parentPageId .write) := by
    subst hstore
    simp only [redistribute, hs.right_page, Option.bind_eq_bind, Option.bind_some,
      TreePage.isLeafPage, TreePage.getParentPageId, hs.right_parent, redistributeInternal, hparent,
      hleft, hright, hmove, Bool.false_eq_true, if_false, if_true]
    rfl
  obtain ⟨page, hpage, harray⟩ := internalAt_setParent hright' rightPage'.parentPageId
    (rightPage'.valueAt 0)
  refine ⟨_, hrun, ?_, page, hpage, harray⟩
  show (store.setParent _ _).inOrder parentPageId left right i = _
  rw [inOrder_setParent (hpages ▸ borrowedPages_self)
    (hpages ▸ borrowedPages_sibling hpl.symm) hright', keyAt_setKeyAt hslot]

/-- A page 0 above the internal pages 1 and 2. -/
def twoPages (left right : List (Nat × PageId)) : BPlusTree Nat Nat where
  leafMaxSize := 3
  internalMaxSize := 3
  rootPageId := 0
  pages p :=
    if p = 0 then some (.internal ⟨3, invalidPageId, [(0, 1), (50, 2)]⟩)
    else if p = 1 then some (.internal ⟨3, 0, left⟩)
    else if p = 2 then some (.internal ⟨3, 0, right⟩)
    else none
  nextPageId := 3

theorem siblings_twoPages (left right : List (Nat × PageId)) :
    (twoPages left right).Siblings 0 1 2 0 ⟨3, invalidPageId, [(0, 1), (50, 2)]⟩ ⟨3, 0, left⟩
      ⟨3, 0, right⟩ :=
  ⟨rfl, rfl, rfl, rfl, rfl, rfl, rfl, by decide⟩

/-! ## The step -/

variable {node sibling : PageId} {nodePage siblingPage : InternalPage K}

/-- **Borrowing from the right neighbour** keeps the sequence if and only if the first two
separators of the neighbour are one key. -/
theorem redistribute_successor_inOrder_iff
    (hs : s.Siblings parentPageId node sibling i parent nodePage siblingPage)
    (hsizes : nodePage.BorrowsFrom siblingPage) :
    ∃ s', s.redistribute sibling node i false = some s' ∧
      ((s'.inOrder parentPageId node sibling i = s.inOrder parentPageId node sibling i ∧
          ∃ page, s'.internalAt node = some page ∧
            page.array.length = nodePage.array.length + 1) ↔
        nodePage.array ≠ [] ∧ siblingPage.keyAt 1 = siblingPage.keyAt 2) := by
  obtain ⟨siblingPage', nodePage', hmove⟩ : ∃ siblingPage' nodePage',
      siblingPage.moveFirstToEndOf nodePage (parent.keyAt (i + 1)) = (siblingPage', nodePage') :=
    ⟨_, _, rfl⟩
  obtain ⟨s', hrun, hafter, page, hpage, harray⟩ := redistribute_successor hs hmove
  obtain ⟨htwo, hthree⟩ := hsizes.sizes
  have hiff := InternalPage.moveFirstToEndOf_inOrder_iff htwo hthree (parent.keyAt (i + 1))
  rw [hmove] at hiff
  refine ⟨s', hrun, ?_⟩
  rw [hafter, inOrder_eq hs.parent_page hs.left_page hs.right_page, Option.some.injEq, hiff]
  refine and_iff_left ⟨page, hpage, ?_⟩
  rw [harray, ← show (siblingPage.moveFirstToEndOf nodePage _).2 = nodePage' from
    congrArg Prod.snd hmove]
  show (nodePage.array ++ [_]).length = _
  rw [List.length_append, List.length_singleton]

theorem redistribute_successor_inOrder_iff_repeated :
    ∃ s', (twoPages [(0, 10)] [(0, 11), (60, 12), (60, 13)]).redistribute 2 1 0 false = some s' ∧
      ((s'.inOrder 0 1 2 0 = (twoPages [(0, 10)] [(0, 11), (60, 12), (60, 13)]).inOrder 0 1 2 0 ∧
          ∃ page, s'.internalAt 1 = some page ∧ page.array.length = 2) ↔
        [((0 : Nat), (10 : PageId))] ≠ [] ∧ 60 = 60) :=
  redistribute_successor_inOrder_iff (siblings_twoPages [(0, 10)] [(0, 11), (60, 12), (60, 13)])
    (by decide)

/-- The separator 60 is lost: a key from 60 to 69 had the child 12, and has the child 11 now. -/
theorem redistribute_successor_loses :
    (twoPages [(0, 10)] [(0, 11), (60, 12), (70, 13)]).Siblings 0 1 2 0
        ⟨3, invalidPageId, [(0, 1), (50, 2)]⟩ ⟨3, 0, [(0, 10)]⟩
        ⟨3, 0, [(0, 11), (60, 12), (70, 13)]⟩ ∧
      (⟨3, 0, [(0, 10)]⟩ : InternalPage Nat).BorrowsFrom ⟨3, 0, [(0, 11), (60, 12), (70, 13)]⟩ ∧
      (twoPages [(0, 10)] [(0, 11), (60, 12), (70, 13)]).inOrder 0 1 2 0 =
        some [.child 10, .separator 50, .child 11, .separator 60, .child 12, .separator 70,
          .child 13] ∧
      ((twoPages [(0, 10)] [(0, 11), (60, 12), (70, 13)]).redistribute 2 1 0 false).bind
          (·.inOrder 0 1 2 0) =
        some [.child 10, .separator 50, .child 11, .separator 70, .child 12, .separator 70,
          .child 13] ∧
      ((twoPages [(0, 10)] [(0, 11), (60, 12), (70, 13)]).redistribute 2 1 0 false).bind
          (·.inOrder 0 1 2 0) ≠
        (twoPages [(0, 10)] [(0, 11), (60, 12), (70, 13)]).inOrder 0 1 2 0 :=
  ⟨siblings_twoPages _ _, by decide, by decide, by decide, by decide⟩

/-- **Borrowing from the left neighbour** keeps the sequence if and only if the child that
moves is the first child already, and its separator the one above the two pages. -/
theorem redistribute_predecessor_inOrder_iff
    (hs : s.Siblings parentPageId sibling node i parent siblingPage nodePage)
    (hsizes : nodePage.BorrowsFrom siblingPage) :
    ∃ s', s.redistribute sibling node (i + 1) true = some s' ∧
      ((s'.inOrder parentPageId sibling node i = s.inOrder parentPageId sibling node i ∧
          ∃ page, s'.internalAt node = some page ∧
            page.valueAt 0 = siblingPage.valueAt (siblingPage.array.length - 1)) ↔
        nodePage.array ≠ [] ∧
          siblingPage.keyAt (siblingPage.array.length - 1) = parent.keyAt (i + 1) ∧
          siblingPage.valueAt (siblingPage.array.length - 1) = nodePage.valueAt 0) := by
  obtain ⟨siblingPage', nodePage', hmove⟩ : ∃ siblingPage' nodePage',
      siblingPage.moveLastToFrontOf nodePage (parent.keyAt (i + 1)) = (siblingPage', nodePage') :=
    ⟨_, _, rfl⟩
  obtain ⟨s', hrun, hafter, page, hpage, harray⟩ := redistribute_predecessor hs hmove
  have hiff := @InternalPage.moveLastToFrontOf_inOrder_iff K _ nodePage siblingPage hsizes.sizes.1
    (parent.keyAt (i + 1))
  rw [hmove] at hiff
  refine ⟨s', hrun, ?_⟩
  rw [hafter, inOrder_eq hs.parent_page hs.left_page hs.right_page, Option.some.injEq, hiff]
  refine and_iff_left_of_imp fun h => ⟨page, hpage, ?_⟩
  obtain ⟨f, rest, hnode⟩ := List.exists_cons_of_ne_nil h.1
  -- slot 0 has the child that it had before
  have hfirst : page.valueAt 0 = nodePage.valueAt 0 := by
    have hnode' : (siblingPage.moveLastToFrontOf nodePage _).2 = nodePage' :=
      congrArg Prod.snd hmove
    simp only [InternalPage.valueAt, harray, ← hnode', InternalPage.moveLastToFrontOf, hnode]
    rfl
  rw [hfirst, h.2.2]

theorem redistribute_predecessor_inOrder_iff_repeated :
    ∃ s', (twoPages [(0, 10), (20, 11), (50, 12)] [(0, 12)]).redistribute 1 2 1 true = some s' ∧
      ((s'.inOrder 0 1 2 0 = (twoPages [(0, 10), (20, 11), (50, 12)] [(0, 12)]).inOrder 0 1 2 0 ∧
          ∃ page, s'.internalAt 2 = some page ∧ page.valueAt 0 = 12) ↔
        [((0 : Nat), (12 : PageId))] ≠ [] ∧ 50 = 50 ∧ (12 : PageId) = 12) :=
  redistribute_predecessor_inOrder_iff (siblings_twoPages [(0, 10), (20, 11), (50, 12)] [(0, 12)])
    (by decide)

/-- The child 12 comes after the child 13, and the separator 30 is lost. -/
theorem redistribute_predecessor_misplaces :
    (twoPages [(0, 10), (20, 11), (30, 12)] [(0, 13)]).Siblings 0 1 2 0
        ⟨3, invalidPageId, [(0, 1), (50, 2)]⟩ ⟨3, 0, [(0, 10), (20, 11), (30, 12)]⟩
        ⟨3, 0, [(0, 13)]⟩ ∧
      (⟨3, 0, [(0, 13)]⟩ : InternalPage Nat).BorrowsFrom ⟨3, 0, [(0, 10), (20, 11), (30, 12)]⟩ ∧
      (twoPages [(0, 10), (20, 11), (30, 12)] [(0, 13)]).inOrder 0 1 2 0 =
        some [.child 10, .separator 20, .child 11, .separator 30, .child 12, .separator 50,
          .child 13] ∧
      ((twoPages [(0, 10), (20, 11), (30, 12)] [(0, 13)]).redistribute 1 2 1 true).bind
          (·.inOrder 0 1 2 0) =
        some [.child 10, .separator 20, .child 11, .separator 50, .child 13, .separator 50,
          .child 12] ∧
      ((twoPages [(0, 10), (20, 11), (30, 12)] [(0, 13)]).redistribute 1 2 1 true).bind
          (·.inOrder 0 1 2 0) ≠
        (twoPages [(0, 10), (20, 11), (30, 12)] [(0, 13)]).inOrder 0 1 2 0 :=
  ⟨siblings_twoPages _ _, by decide, by decide, by decide, by decide⟩

end Pages

end BPlusTree

end OneBase
