import OneBase.Index.BPlusTreePage

/-!
# Page ids on pages of the tree

An id on a page is that of its parent or of a child. The operations on pages bring in no ids
but those that they are given, and 0, which stands past the end of the array.

- `TreePage.RefersTo`: the ids on the page are those of pages that exist.
- `InternalPage.Lists.moveHalfTo` and the others: so they are after an operation.
-/

namespace OneBase

/-! ## Pages that exist -/

/-- The id was handed out, with `next` as the next one. -/
def IsPage (next p : PageId) : Prop := 0 ≤ p ∧ p < next

/-- A parent id of the root, or of another page. -/
def IsParent (next p : PageId) : Prop := p = invalidPageId ∨ IsPage next p

theorem IsPage.mono {next next' p : PageId} (h : IsPage next p) (hle : next ≤ next') :
    IsPage next' p :=
  ⟨h.1, Int.lt_of_lt_of_le h.2 hle⟩

theorem IsParent.mono {next next' p : PageId} (h : IsParent next p) (hle : next ≤ next') :
    IsParent next' p :=
  h.imp_right fun hp => hp.mono hle

namespace InternalPage

variable {K : Type}

/-- The children exist. -/
def Lists (next : PageId) (page : InternalPage K) : Prop := ∀ e ∈ page.array, IsPage next e.2

variable {page recipient : InternalPage K} {next : PageId}

theorem Lists.mono {next' : PageId} (h : page.Lists next) (hle : next ≤ next') :
    page.Lists next' :=
  fun e he => (h e he).mono hle

/-- Fewer children. -/
theorem Lists.sub {page' : InternalPage K} (h : page.Lists next)
    (hsub : ∀ e ∈ page'.array, e ∈ page.array) : page'.Lists next :=
  fun e he => h e (hsub e he)

theorem Lists.setKeyAt (h : page.Lists next) (index : Nat) (key : K) :
    (page.setKeyAt index key).Lists next := by
  intro e he
  obtain ⟨i, hi⟩ := List.mem_iff_getElem?.mp he
  unfold InternalPage.setKeyAt at hi
  rw [List.getElem?_modify] at hi
  obtain ⟨e', he', rfl⟩ := Option.map_eq_some_iff.mp hi
  have hpage := h e' (List.mem_of_getElem? he')
  split
  · exact hpage
  · exact hpage

theorem Lists.insertNodeAfter {newValue : PageId} (h : page.Lists next)
    (hnew : IsPage next newValue) (oldValue : PageId) (key : K) :
    (page.insertNodeAfter oldValue key newValue).Lists next := by
  unfold InternalPage.insertNodeAfter
  cases page.valueIndex oldValue with
  | none => exact h
  | some index =>
    intro e he
    rcases List.mem_append.mp he with he | he
    · exact h e (List.mem_of_mem_take he)
    · rcases List.mem_cons.mp he with rfl | he
      · exact hnew
      · exact h e (List.mem_of_mem_drop he)

theorem Lists.remove (h : page.Lists next) (index : Nat) : (page.remove index).Lists next :=
  h.sub fun _ he => List.mem_of_mem_eraseIdx (List.mem_of_mem_take he)

/-- The first child of a list gets another key. -/
theorem lists_rekeyed {es : List (K × PageId)} (h : ∀ e ∈ es, IsPage next e.2) (key : K) :
    ∀ e ∈ (match es with
      | [] => []
      | e :: rest => (key, e.2) :: rest : List (K × PageId)), IsPage next e.2 := by
  cases es with
  | nil => exact h
  | cons e rest => exact List.forall_mem_cons.mpr (List.forall_mem_cons.mp h)

theorem Lists.moveAllTo (h : page.Lists next) (hrecipient : recipient.Lists next) (key : K) :
    (page.moveAllTo recipient key).1.Lists next ∧ (page.moveAllTo recipient key).2.Lists next := by
  constructor
  · exact fun e he => absurd he List.not_mem_nil
  · intro e he
    rcases List.mem_append.mp he with he | he
    · exact hrecipient e he
    · exact lists_rekeyed h key e he

variable [Inhabited K]

/-- Past the end of the array the value is 0, which is a page. -/
theorem Lists.valueAt (h : page.Lists next) (hpos : 0 < next) (index : Nat) :
    IsPage next (page.valueAt index) := by
  unfold InternalPage.valueAt
  rw [List.getD_eq_getElem?_getD]
  cases hget : page.array[index]? with
  | none => exact ⟨Int.le_refl 0, hpos⟩
  | some e => exact h e (List.mem_of_getElem? hget)

theorem Lists.moveHalfTo (h : page.Lists next) (recipient : InternalPage K) :
    (page.moveHalfTo recipient).1.Lists next ∧ (page.moveHalfTo recipient).2.Lists next :=
  ⟨h.sub fun _ he => List.mem_of_mem_take he,
    lists_rekeyed (fun e he => h e (List.mem_of_mem_drop he)) _⟩

theorem Lists.moveFirstToEndOf (h : page.Lists next) (hrecipient : recipient.Lists next)
    (hpos : 0 < next) (key : K) :
    (page.moveFirstToEndOf recipient key).1.Lists next ∧
      (page.moveFirstToEndOf recipient key).2.Lists next := by
  constructor
  · intro e he
    unfold InternalPage.moveFirstToEndOf at he
    cases harray : page.array with
    | nil =>
      rw [harray] at he
      exact absurd he List.not_mem_nil
    | cons e₀ es =>
      cases es with
      | nil =>
        rw [harray] at he
        exact absurd he List.not_mem_nil
      | cons e₁ rest =>
        rw [harray] at he
        unfold Lists at h
        rw [harray] at h
        rcases List.mem_cons.mp he with rfl | he
        · exact h e₁ (by simp)
        · exact h e (by simp [he])
  · intro e he
    rcases List.mem_append.mp he with he | he
    · exact hrecipient e he
    · rw [List.mem_singleton.mp he]
      exact h.valueAt hpos 0

theorem Lists.moveLastToFrontOf (h : page.Lists next) (hrecipient : recipient.Lists next)
    (hpos : 0 < next) (key : K) :
    (page.moveLastToFrontOf recipient key).1.Lists next ∧
      (page.moveLastToFrontOf recipient key).2.Lists next := by
  constructor
  · exact h.sub fun _ he => List.dropLast_subset _ he
  · intro e he
    unfold InternalPage.moveLastToFrontOf at he
    cases harray : recipient.array with
    | nil =>
      rw [harray] at he
      rw [List.mem_singleton.mp he]
      exact ⟨Int.le_refl 0, hpos⟩
    | cons e₀ rest =>
      rw [harray] at he
      unfold Lists at hrecipient
      rw [harray] at hrecipient
      rcases List.mem_cons.mp he with rfl | he
      · exact hrecipient e (by simp)
      · rcases List.mem_cons.mp he with rfl | he
        · exact h.valueAt hpos _
        · exact hrecipient e (by simp [he])

end InternalPage

/-! ## Parents -/

theorem InternalPage.insertNodeAfter_parentPageId {K : Type} (page : InternalPage K)
    (oldValue : PageId) (key : K) (newValue : PageId) :
    (page.insertNodeAfter oldValue key newValue).parentPageId = page.parentPageId := by
  unfold insertNodeAfter
  cases page.valueIndex oldValue with
  | none => rfl
  | some index => rfl

section Leaves

variable {K V : Type} [LinearOrder K] [Inhabited K] [Inhabited V]

theorem LeafPage.insert_parentPageId (page : LeafPage K V) (key : K) (value : V) :
    (page.insert key value).parentPageId = page.parentPageId := by
  unfold LeafPage.insert
  dsimp only
  split <;> rfl

theorem LeafPage.removeAndDeleteRecord_parentPageId (page : LeafPage K V) (key : K) :
    (page.removeAndDeleteRecord key).parentPageId = page.parentPageId := by
  unfold removeAndDeleteRecord
  dsimp only
  split <;> rfl

end Leaves

/-- The page refers to pages that exist. -/
def TreePage.RefersTo {K V : Type} (next : PageId) : TreePage K V → Prop
  | .leaf page => IsParent next page.parentPageId
  | .internal page => IsParent next page.parentPageId ∧ page.Lists next

namespace TreePage

variable {K V : Type} {next next' : PageId} {page : TreePage K V}

theorem RefersTo.mono (h : page.RefersTo next) (hle : next ≤ next') : page.RefersTo next' := by
  cases page with
  | leaf page => exact IsParent.mono h hle
  | internal page => exact ⟨h.1.mono hle, h.2.mono hle⟩

theorem RefersTo.parent (h : page.RefersTo next) : IsParent next page.getParentPageId := by
  cases page with
  | leaf page => exact h
  | internal page => exact h.1

theorem RefersTo.setParentPageId {p : PageId} (h : page.RefersTo next) (hp : IsParent next p) :
    (page.setParentPageId p).RefersTo next := by
  cases page with
  | leaf page => exact hp
  | internal page => exact ⟨hp, h.2⟩

end TreePage

end OneBase
