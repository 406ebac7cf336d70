import Mathlib.Data.List.Basic

/-!
# Fundamental types (`common/types.h`, `common/config.h`, `common/rid.h`)

Identifiers are `int32_t` in the source with `-1` as the sentinel. In the model
they are integers, and the counters that hand them out (`next_page_id_` of the
disk, here and in the pool) wrap around as the `int32_t` does.
-/

namespace OneBase

/-- The constant `PAGE_SIZE` of `config.h`. -/
def pageSize : Nat := 4096

/-- Page identifiers (`page_id_t`). -/
abbrev PageId := Int

/-- Frame identifiers (`frame_id_t`). -/
abbrev FrameId := Int

/-- The sentinel `INVALID_PAGE_ID`. -/
def invalidPageId : PageId := -1

/-- A record identifier: the page of a tuple and its slot on that page. -/
structure RID where
  pageId : PageId := invalidPageId
  slotNum : Nat := 0
  deriving DecidableEq, Repr, Inhabited

/-- The bytes of one page (`char data_[ONEBASE_PAGE_SIZE]`). -/
abbrev PageData := Fin pageSize → UInt8

namespace PageData

/-- The page after `ResetMemory`. -/
def zero : PageData := fun _ => 0

/-- The page as a byte string. -/
def toBytes (d : PageData) : List UInt8 := List.ofFn d

@[simp] theorem length_toBytes (d : PageData) : d.toBytes.length = pageSize :=
  List.length_ofFn

theorem getD_toBytes (d : PageData) (i : Fin pageSize) : d.toBytes.getD i 0 = d i := by
  simp [toBytes, List.getD_eq_getElem?_getD]

end PageData

end OneBase
