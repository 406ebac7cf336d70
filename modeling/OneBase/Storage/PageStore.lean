import OneBase.Common.Types

/-!
# A page store that never runs out of frames

What the clients of the buffer pool see of it when every `NewPage` and
`FetchPage` gets a frame: the contents of the pages and the pin counts.
`TransparentCache` shows that the pool is such a store for clients that follow
the pin discipline. A `Page *` is used between `FetchPage` and `UnpinPage` only,
so a write through it is `setPage`.

- `StoreOk`: ids are handed out in order, and pages that do not exist yet are
  not pinned.
-/

namespace OneBase

/-- The pages, the next page id and the pin counts. -/
structure PageStore (P : Type) where
  pages : PageId → P
  nextPageId : PageId := 0
  pinCount : PageId → Int := fun _ => 0

namespace PageStore

variable {P : Type}

/-- Model of `NewPage`: the id of the new page, which holds `zero` and is pinned
once. -/
def newPage (s : PageStore P) (zero : P) : PageId × PageStore P :=
  (s.nextPageId, {
    pages := Function.update s.pages s.nextPageId zero
    nextPageId := s.nextPageId + 1
    pinCount := Function.update s.pinCount s.nextPageId 1 })

/-- The store after `FetchPage`: one more pin. -/
def pinPage (s : PageStore P) (p : PageId) : PageStore P :=
  { s with pinCount := Function.update s.pinCount p (s.pinCount p + 1) }

/-- Model of `FetchPage`. -/
def fetchPage (s : PageStore P) (p : PageId) : P × PageStore P := (s.pages p, s.pinPage p)

/-- The store after a write through the pointer to page `p`. -/
def setPage (s : PageStore P) (p : PageId) (page : P) : PageStore P :=
  { s with pages := Function.update s.pages p page }

/-- Model of `UnpinPage`. The dirty flag does not matter to a store. -/
def unpinPage (s : PageStore P) (p : PageId) : PageStore P :=
  { s with pinCount := Function.update s.pinCount p (s.pinCount p - 1) }

/-- Ids start at 0, and no pages beyond the last id are pinned. -/
structure StoreOk (s : PageStore P) : Prop where
  next_nonneg : 0 ≤ s.nextPageId
  unpinned : ∀ p, s.nextPageId ≤ p → s.pinCount p = 0

/-- A pin and its release cancel. -/
theorem update_unpin (f : PageId → Int) (p : PageId) :
    Function.update (Function.update f p (f p + 1)) p
      (Function.update f p (f p + 1) p - 1) = f := by
  rw [Function.update_self, Function.update_idem, Int.add_sub_cancel, Function.update_eq_self]

/-- A page that is only looked at. -/
@[simp] theorem unpinPage_pinPage (s : PageStore P) (p : PageId) :
    (s.pinPage p).unpinPage p = s := by
  simp only [pinPage, unpinPage, update_unpin]

/-- A page that is written between `FetchPage` and `UnpinPage`. -/
@[simp] theorem unpinPage_setPage_pinPage (s : PageStore P) (p : PageId) (page : P) :
    ((s.pinPage p).setPage p page).unpinPage p = s.setPage p page := by
  simp only [pinPage, setPage, unpinPage, update_unpin]

theorem pages_setPage_ne (s : PageStore P) {p q : PageId} (page : P) (h : q ≠ p) :
    (s.setPage p page).pages q = s.pages q := Function.update_of_ne h _ _

@[simp] theorem pages_setPage_self (s : PageStore P) (p : PageId) (page : P) :
    (s.setPage p page).pages p = page := Function.update_self _ _ _

theorem setPage_setPage (s : PageStore P) (p : PageId) (page page' : P) :
    (s.setPage p page).setPage p page' = s.setPage p page' := by
  simp only [setPage, Function.update_idem]

theorem setPage_pages (s : PageStore P) (p : PageId) : s.setPage p (s.pages p) = s := by
  simp only [setPage, Function.update_eq_self]

end PageStore

end OneBase
