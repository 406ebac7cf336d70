import OneBase.Index.BPlusTree

/-!
# The elements of `array_` that an operation writes

A page has 4096 bytes, and no operation looks whether the elements that it writes are inside it.
The lists below have every element that `Insert` and `Remove` write, in the order of the source.

- `ArrayWrite`: an element of `array_` that a page operation writes.
- `BPlusTree.insertWrites`, `BPlusTree.removeWrites`: the elements that `Insert` and `Remove` write.
- `TreePage.forall_moveAllTo_lt`: the room that a merge needs.
-/

namespace OneBase

/-- An element of `array_` that is written. -/
inductive ArrayWrite where
  | leaf (pageId : PageId) (index : Nat)
  | internal (pageId : PageId) (index : Nat)

/-- The element is inside its page, for `int` keys and RIDs as values: after the header of 20 or
16 bytes, elements of 12 or 8 bytes. -/
def ArrayWrite.InBounds : ArrayWrite → Prop
  | leaf _ index => 20 + 12 * (index + 1) ≤ pageSize
  | internal _ index => 16 + 8 * (index + 1) ≤ pageSize

/-- The loop `for (i = size - 1; i >= index; i--) array_[i + 1] = array_[i]`, and the element that
takes the slot. -/
def shiftWrites (size index : Nat) : List Nat :=
  (List.range (size - index)).map (size - ·) ++ [index]

/-- The loop `for (i = index; i < size - 1; i++) array_[i] = array_[i + 1]`. -/
def eraseWrites (size index : Nat) : List Nat := (List.range (size - 1 - index)).map (index + ·)

section Pages

variable {K V : Type} [LinearOrder K] [Inhabited K] [Inhabited V]

/-! ### `Insert` -/

/-- The writes of `Insert`. -/
def LeafPage.insertWrites (page : LeafPage K V) (key : K) : List Nat :=
  let index := page.keyIndex key
  if page.holdsAt key index then [] else shiftWrites page.array.length index

/-- The writes of `MoveHalfTo`, on the recipient. -/
def moveHalfToWrites (size : Nat) : List Nat := List.range (size - size / 2)

/-- The writes of `InsertNodeAfter`. -/
def InternalPage.insertNodeAfterWrites (page : InternalPage K) (oldValue : PageId) : List Nat :=
  match page.valueIndex oldValue with
  | none => []
  | some index => shiftWrites page.array.length (index + 1)

/-- The writes of `PopulateNewRoot`. -/
def populateNewRootWrites : List Nat := [0, 1]

/-! ### `Remove` -/

/-- The writes of `RemoveAndDeleteRecord`. -/
def LeafPage.removeAndDeleteRecordWrites (page : LeafPage K V) (key : K) : List Nat :=
  let index := page.keyIndex key
  if page.holdsAt key index then eraseWrites page.array.length index else []

/-- The writes of `Remove`. -/
def InternalPage.removeWrites (page : InternalPage K) (index : Nat) : List Nat :=
  eraseWrites page.array.length index

namespace TreePage

/-- The element at the position, in the page with the id. -/
def element (pageId : PageId) (index : Nat) : TreePage K V → ArrayWrite
  | leaf _ => .leaf pageId index
  | internal _ => .internal pageId index

/-- The writes of `MoveAllTo`, on the recipient. An internal page writes the element at the
recipient's size before its loop starts with the second child. -/
def moveAllToWrites (page recipient : TreePage K V) : List Nat :=
  match page with
  | leaf page => (List.range page.array.length).map (recipient.getSize + ·)
  | internal page =>
    recipient.getSize ::
      (List.range (page.array.length - 1)).map fun i => recipient.getSize + (i + 1)

/-- The writes of `MoveFirstToEndOf`, on the page. An internal page moves the values one slot to
the left, and then the keys from slot 1 on. -/
def moveFirstToEndOfWrites : TreePage K V → List Nat
  | leaf page => eraseWrites page.array.length 0
  | internal page => eraseWrites page.array.length 0 ++ eraseWrites page.array.length 1

/-- The writes of `MoveLastToFrontOf`, on the recipient: every element moves one slot to the right.
The entry of a leaf gets slot 0, the child of an internal page slot 1. -/
def moveLastToFrontOfWrites : TreePage K V → List Nat
  | leaf recipient => shiftWrites recipient.array.length 0
  | internal recipient => shiftWrites recipient.array.length 0 ++ [1]

end TreePage

end Pages

namespace BPlusTree

variable {K V : Type} [LinearOrder K] [Inhabited K] [Inhabited V]

/-! ## `Insert` -/

/-- The writes of `InsertIntoParent`. -/
def insertIntoParentWrites :
    Nat → BPlusTree K V → (parentPageId oldPageId : PageId) → K → PageId → List ArrayWrite
  | 0, _, _, _, _, _ => []
  | fuel + 1, s, parentPageId, oldPageId, key, newPageId =>
    match s.internalAt parentPageId with
    | none => []
    | some oldParent =>
      let parent := oldParent.insertNodeAfter oldPageId key newPageId
      (oldParent.insertNodeAfterWrites oldPageId).map (.internal parentPageId) ++
        if parent.maxSize < parent.array.length then
          let (newParentId, s) := s.newPageGuarded (.internal (InternalPage.init s.internalMaxSize))
          let middleKey := parent.keyAt (parent.array.length / 2)
          let halves := parent.moveHalfTo (InternalPage.init s.internalMaxSize)
          (moveHalfToWrites parent.array.length).map (.internal newParentId) ++
            if parent.parentPageId = invalidPageId then
              populateNewRootWrites.map (.internal s.nextPageId)
            else
              let s := s.write parentPageId (.internal halves.1)
              let s := s.write newParentId (.internal halves.2)
              let s := s.setParents newParentId halves.2.array
              insertIntoParentWrites fuel s parent.parentPageId parentPageId middleKey newParentId
        else []

/-- The writes of `Insert` from the leaf on. -/
def insertIntoLeafWrites (fuel : Nat) (s : BPlusTree K V) (leafPageId : PageId) (key : K)
    (value : V) :
    List ArrayWrite :=
  match s.leafAt leafPageId with
  | none => []
  | some oldLeaf =>
    let leaf := oldLeaf.insert key value
    (oldLeaf.insertWrites key).map (.leaf leafPageId) ++
      if leaf.array.length = oldLeaf.array.length then []
      else if leaf.maxSize < leaf.array.length then
        let (newPageId, s) := s.newPageGuarded (.leaf (LeafPage.init s.leafMaxSize))
        let halves := leaf.moveHalfTo (LeafPage.init s.leafMaxSize)
        (moveHalfToWrites leaf.array.length).map (.leaf newPageId) ++
          if leaf.parentPageId = invalidPageId then
            populateNewRootWrites.map (.internal s.nextPageId)
          else
            let s := s.write leafPageId (.leaf halves.1)
            let s := s.write newPageId (.leaf halves.2)
            s.insertIntoParentWrites fuel leaf.parentPageId leafPageId (halves.2.keyAt 0) newPageId
      else []

/-- **The elements that `Insert` writes.** -/
def insertWrites (fuel : Nat) (s : BPlusTree K V) (key : K) (value : V) : List ArrayWrite :=
  if s.isEmpty then
    ((LeafPage.init s.leafMaxSize : LeafPage K V).insertWrites key).map (.leaf s.nextPageId)
  else
    match (s.fetchPage s.rootPageId .write).findLeaf .write (·.lookup key) fuel s.rootPageId with
    | none => []
    | some (leafPageId, s) => s.insertIntoLeafWrites fuel leafPageId key value

/-! ## `Remove` -/

/-- The writes of `Coalesce`: `MoveAllTo` on the neighbour, and `Remove` on the parent. -/
def coalesceWrites (s : BPlusTree K V) (neighbor node parentPageId : PageId) (index : Nat) :
    List ArrayWrite :=
  match s.pages neighbor, s.pages node, s.internalAt parentPageId with
  | some neighborPage, some nodePage, some parent =>
    (nodePage.moveAllToWrites neighborPage).map (neighborPage.element neighbor ·) ++
      (parent.removeWrites (index + 1)).map (.internal parentPageId)
  | _, _, _ => []

/-- The writes of `Redistribute`: one element moves to the page, and `SetKeyAt` on the parent. -/
def redistributeWrites (s : BPlusTree K V) (neighbor node parentPageId : PageId) (index : Nat)
    (isPredecessor : Bool) : List ArrayWrite :=
  match s.pages neighbor, s.pages node with
  | some neighborPage, some nodePage =>
    if isPredecessor then
      nodePage.moveLastToFrontOfWrites.map (nodePage.element node ·) ++
        [.internal parentPageId index]
    else
      nodePage.element node nodePage.getSize ::
        neighborPage.moveFirstToEndOfWrites.map (neighborPage.element neighbor ·) ++
        [.internal parentPageId (index + 1)]
  | _, _ => []

/-- The writes of `CoalesceOrRedistribute`; `AdjustRoot` writes no element. -/
def coalesceOrRedistributeWrites : Nat → BPlusTree K V → (node : PageId) → List ArrayWrite
  | 0, _, _ => []
  | fuel + 1, s, node =>
    match s.pages node with
    | none => []
    | some nodePage =>
      if nodePage.isRootPage then []
      else if nodePage.getMinSize ≤ nodePage.getSize then []
      else
        let parentPageId := nodePage.getParentPageId
        match s.internalAt parentPageId with
        | none => []
        | some parent =>
          match parent.valueIndex node with
          | none => []
          | some nodeIndex =>
            let isPredecessor := decide (0 < nodeIndex)
            let siblingIndex := if isPredecessor then nodeIndex - 1 else nodeIndex + 1
            let sibling := parent.valueAt siblingIndex
            match s.pages sibling with
            | none => []
            | some siblingPage =>
              if nodePage.getSize + siblingPage.getSize ≤ nodePage.getMaxSize then
                let left := if isPredecessor then sibling else node
                let right := if isPredecessor then node else sibling
                let index := if isPredecessor then siblingIndex else nodeIndex
                s.coalesceWrites left right parentPageId index ++
                  match s.coalesce left right parentPageId index with
                  | some (true, s) => coalesceOrRedistributeWrites fuel s parentPageId
                  | _ => []
              else s.redistributeWrites sibling node parentPageId nodeIndex isPredecessor

/-- The writes of `Remove` from the leaf on. -/
def removeFromLeafWrites (fuel : Nat) (s : BPlusTree K V) (leafPageId : PageId) (key : K) :
    List ArrayWrite :=
  match s.leafAt leafPageId with
  | none => []
  | some oldLeaf =>
    let leaf := oldLeaf.removeAndDeleteRecord key
    (oldLeaf.removeAndDeleteRecordWrites key).map (.leaf leafPageId) ++
      if leaf.array.length = oldLeaf.array.length then []
      else if leaf.array.length < (TreePage.leaf leaf).getMinSize then
        (s.write leafPageId (.leaf leaf)).coalesceOrRedistributeWrites fuel leafPageId
      else []

/-- **The elements that `Remove` writes.** -/
def removeWrites (fuel : Nat) (s : BPlusTree K V) (key : K) : List ArrayWrite :=
  if s.isEmpty then []
  else
    match (s.fetchPage s.rootPageId .write).findLeaf .write (·.lookup key) fuel s.rootPageId with
    | none => []
    | some (leafPageId, s) => s.removeFromLeafWrites fuel leafPageId key

end BPlusTree

/-! ## Room -/

instance (w : ArrayWrite) : Decidable w.InBounds :=
  match w with
  | .leaf _ index => inferInstanceAs (Decidable (20 + 12 * (index + 1) ≤ pageSize))
  | .internal _ index => inferInstanceAs (Decidable (16 + 8 * (index + 1) ≤ pageSize))

/-- The number of entries that fit in a leaf page. -/
def leafCapacity : Nat := (pageSize - 20) / 12

/-- The number of slots that fit in an internal page. -/
def internalCapacity : Nat := (pageSize - 16) / 8

theorem inBounds_leaf (p : PageId) (i : Nat) :
    (ArrayWrite.leaf p i).InBounds ↔ i < leafCapacity := by
  simp only [ArrayWrite.InBounds, leafCapacity, pageSize]
  omega

theorem inBounds_internal (p : PageId) (i : Nat) :
    (ArrayWrite.internal p i).InBounds ↔ i < internalCapacity := by
  simp only [ArrayWrite.InBounds, internalCapacity, pageSize]
  omega

/-- The elements that are shifted and the one that takes the slot are up to the end of the
array, which is one of them. -/
theorem mem_shiftWrites {size index : Nat} (hindex : index ≤ size) :
    (∀ i ∈ shiftWrites size index, i ≤ size) ∧ size ∈ shiftWrites size index := by
  simp only [shiftWrites, List.mem_append, List.mem_map, List.mem_range, List.mem_singleton]
  constructor
  · rintro i (⟨j, -, rfl⟩ | rfl)
    · exact Nat.sub_le size j
    · exact hindex
  · rcases hindex.eq_or_lt with rfl | hlt
    · exact .inr rfl
    · exact .inl ⟨0, by omega, rfl⟩

theorem forall_shiftWrites_lt {size index n : Nat} (hindex : index ≤ size) :
    (∀ i ∈ shiftWrites size index, i < n) ↔ size < n := by
  obtain ⟨hle, hmem⟩ := mem_shiftWrites hindex
  constructor
  · intro hall
    exact hall size hmem
  · intro hlt i hi
    exact (hle i hi).trans_lt hlt

theorem lt_of_mem_eraseWrites {size index i : Nat} (hi : i ∈ eraseWrites size index) :
    i < size := by
  simp only [eraseWrites, List.mem_map, List.mem_range] at hi
  obtain ⟨j, hj, rfl⟩ := hi
  omega

namespace LeafPage

variable {K V : Type} [LinearOrder K] [Inhabited K] [Inhabited V] {page : LeafPage K V} {key : K}

/-- A new key is written somewhere up to the end of the array, and the end is written. -/
theorem mem_insertWrites (hinc : Increasing page.array) (hkey : key ∉ page.array.map Prod.fst) :
    (∀ i ∈ page.insertWrites key, i ≤ page.array.length) ∧
      page.array.length ∈ page.insertWrites key := by
  rcases holdsAt_keyIndex hinc key with
    ⟨l, v, r, harray, -, -⟩ | ⟨l, r, harray, hindex, -, -, hat⟩
  · exact absurd (by simp [harray]) hkey
  · have hwrites : page.insertWrites key = shiftWrites page.array.length (page.keyIndex key) :=
      if_neg hat
    have hle : page.keyIndex key ≤ page.array.length := by
      rw [hindex, harray, List.length_append]
      exact Nat.le_add_right _ _
    rw [hwrites]
    exact mem_shiftWrites hle

theorem insertWrites_of_mem (hinc : Increasing page.array) (hkey : key ∈ page.array.map Prod.fst) :
    page.insertWrites key = [] := by
  rcases holdsAt_keyIndex hinc key with
    ⟨l, v, r, -, -, hat⟩ | ⟨l, r, harray, -, hl, hr, -⟩
  · exact if_pos hat
  · obtain ⟨e, he, rfl⟩ := List.mem_map.mp hkey
    rw [harray] at he
    rcases List.mem_append.mp he with he | he
    · exact absurd (hl e he) (lt_irrefl _)
    · exact absurd (hr e he) (lt_irrefl _)

end LeafPage

namespace TreePage

variable {K V : Type} {page recipient : TreePage K V} {n : Nat}

/-- The number of elements that fit in the page. -/
def capacity : TreePage K V → Nat
  | leaf _ => leafCapacity
  | internal _ => internalCapacity

theorem inBounds_element (p : PageId) (i : Nat) :
    (page.element p i).InBounds ↔ i < page.capacity := by
  cases page with
  | leaf page => exact inBounds_leaf p i
  | internal page => exact inBounds_internal p i

theorem one_lt_capacity : 1 < page.capacity := by
  cases page with
  | leaf page => exact show 1 < leafCapacity by decide
  | internal page => exact show 1 < internalCapacity by decide

/-- Pages of one kind have the same capacity. -/
theorem capacity_eq (hkind : page.isLeafPage = recipient.isLeafPage) :
    page.capacity = recipient.capacity := by
  cases page with
  | leaf page =>
    cases recipient with
    | leaf recipient => rfl
    | internal recipient => cases hkind
  | internal page =>
    cases recipient with
    | leaf recipient => cases hkind
    | internal recipient => rfl

/-- **A merge needs room for the elements of both pages.** -/
theorem forall_moveAllTo_lt (hsize : recipient.getSize ≤ n)
    (hpos : page.isLeafPage = true ∨ 0 < page.getSize) :
    (∀ i ∈ page.moveAllToWrites recipient, i < n) ↔ recipient.getSize + page.getSize ≤ n := by
  cases page with
  | leaf page =>
    simp only [moveAllToWrites, List.forall_mem_map, List.mem_range]
    show _ ↔ recipient.getSize + page.array.length ≤ n
    constructor
    · intro hall
      by_cases hzero : page.array.length = 0
      · rwa [hzero]
      · have hlast := hall (page.array.length - 1) (by omega)
        omega
    · intro hle i hi
      omega
  | internal page =>
    have hlen : 0 < page.array.length := hpos.resolve_left Bool.false_ne_true
    simp only [moveAllToWrites, List.forall_mem_cons, List.forall_mem_map, List.mem_range]
    show _ ↔ recipient.getSize + page.array.length ≤ n
    constructor
    · rintro ⟨hfirst, hall⟩
      by_cases hone : page.array.length = 1
      · omega
      · have hlast := hall (page.array.length - 2) (by omega)
        omega
    · intro hle
      exact ⟨by omega, fun i hi => by omega⟩

/-- The elements that make room in a page for one more. -/
theorem moveLastToFrontOf_lt (hsize : recipient.getSize < n) (hn : 1 < n) :
    ∀ i ∈ recipient.moveLastToFrontOfWrites, i < n := by
  cases recipient with
  | leaf recipient => exact (forall_shiftWrites_lt (Nat.zero_le _)).mpr hsize
  | internal recipient =>
    intro i hi
    rcases List.mem_append.mp hi with hi | hi
    · exact (forall_shiftWrites_lt (Nat.zero_le _)).mpr hsize i hi
    · rw [List.mem_singleton.mp hi]
      exact hn

/-- The elements that close the gap of the first one are inside the array. -/
theorem moveFirstToEndOf_lt (hsize : page.getSize ≤ n) :
    ∀ i ∈ page.moveFirstToEndOfWrites, i < n := by
  intro i hi
  cases page with
  | leaf page => exact (lt_of_mem_eraseWrites hi).trans_le hsize
  | internal page =>
    rcases List.mem_append.mp hi with hi | hi
    · exact (lt_of_mem_eraseWrites hi).trans_le hsize
    · exact (lt_of_mem_eraseWrites hi).trans_le hsize

end TreePage

end OneBase
