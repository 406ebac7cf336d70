import OneBase.Common.Types
import OneBase.Lib.Bytes

/-!
# Slotted pages (`storage/page/table_page.cpp`)

A table page is 4096 bytes: the id of the next page, the number of tuples and the
free space pointer in the first 16, then the slots, four bytes each (offset and
length of the tuple), growing up, and the tuples, growing down from the end. A
deleted slot has length 0.

- `PageRep p next slots`: the page holds these tuples, slot by slot; a deleted
  slot is the empty byte string.
- `pageRep_init`, `PageRep.insertTuple`, `PageRep.deleteTuple`,
  `PageRep.setNextPageId`: what the operations do to the tuples.
-/

namespace OneBase

open Cpp

/-- The member `data_`. -/
structure TablePage where
  data : Mem

namespace TablePage

/-- The constant `SIZE_TABLE_PAGE_HEADER`. -/
def sizeTablePageHeader : Nat := 16

/-- The constant `SIZE_TUPLE_SLOT`. -/
def sizeTupleSlot : Nat := 4

/-- A page as `NewPage` hands it out. -/
def blank : TablePage := ⟨fun _ => 0⟩

def getNextPageId (p : TablePage) : PageId := readInt32 p.data 0

def setNextPageId (p : TablePage) (nextPageId : PageId) : TablePage :=
  ⟨writeInt32 p.data 0 nextPageId⟩

def getNumTuples (p : TablePage) : Nat := readLE p.data 4 4

def setNumTuples (p : TablePage) (numTuples : Nat) : TablePage := ⟨writeLE p.data 4 4 numTuples⟩

def getFreeSpacePointer (p : TablePage) : Nat := readLE p.data 8 4

def setFreeSpacePointer (p : TablePage) (fsp : Nat) : TablePage := ⟨writeLE p.data 8 4 fsp⟩

/-- Where the slot is; the parameter of the slot accessors is a `uint16_t`. -/
def slotOffset (slotNum : Nat) : Nat := sizeTablePageHeader + slotNum % 2 ^ 16 * sizeTupleSlot

def getTupleOffsetAtSlot (p : TablePage) (slotNum : Nat) : Nat :=
  readLE p.data (slotOffset slotNum) 2

def getTupleLengthAtSlot (p : TablePage) (slotNum : Nat) : Nat :=
  readLE p.data (slotOffset slotNum + 2) 2

def setTupleOffsetAtSlot (p : TablePage) (slotNum offset : Nat) : TablePage :=
  ⟨writeLE p.data (slotOffset slotNum) 2 offset⟩

def setTupleLengthAtSlot (p : TablePage) (slotNum length : Nat) : TablePage :=
  ⟨writeLE p.data (slotOffset slotNum + 2) 2 length⟩

/-- Model of `Init`: the page is zeroed first. -/
def init (nextPageId : PageId) : TablePage :=
  ((blank.setNextPageId nextPageId).setNumTuples 0).setFreeSpacePointer pageSize

/-- Model of `GetFreeSpaceRemaining`; the difference wraps. -/
def getFreeSpaceRemaining (p : TablePage) : Nat :=
  let slotEnd := sizeTablePageHeader + p.getNumTuples * sizeTupleSlot
  subUInt32 p.getFreeSpacePointer slotEnd

/-- Model of `InsertTuple` (table_page.cpp:63–77). -/
def insertTuple (p : TablePage) (tuple : List UInt8) : Option Nat × TablePage :=
  if p.getFreeSpaceRemaining < tuple.length + sizeTupleSlot then (none, p)
  else
    let numTuples := p.getNumTuples
    let newFsp := subUInt32 p.getFreeSpacePointer tuple.length
    let p := p.setFreeSpacePointer newFsp
    let p : TablePage := ⟨blit p.data newFsp tuple⟩
    let p := p.setTupleOffsetAtSlot numTuples newFsp
    let p := p.setTupleLengthAtSlot numTuples tuple.length
    let p := p.setNumTuples (numTuples + 1)
    (some (numTuples % 2 ^ 16), p)

/-- Model of `GetTuple`: the bytes copied to `dest`. -/
def getTuple (p : TablePage) (slotNum : Nat) : List UInt8 :=
  slice p.data (p.getTupleOffsetAtSlot slotNum) (p.getTupleLengthAtSlot slotNum)

/-- Model of `GetTupleSize`. -/
def getTupleSize (p : TablePage) (slotNum : Nat) : Nat := p.getTupleLengthAtSlot slotNum

/-- Model of `DeleteTuple`. -/
def deleteTuple (p : TablePage) (slotNum : Nat) : TablePage :=
  (p.setTupleLengthAtSlot slotNum 0).setTupleOffsetAtSlot slotNum 0

/-- Model of `UpdateTuple`. -/
def updateTuple (p : TablePage) (slotNum : Nat) (newData : List UInt8) : Bool × TablePage :=
  let oldSize := p.getTupleLengthAtSlot slotNum
  if oldSize < newData.length ∧
      p.getFreeSpaceRemaining < subUInt32 newData.length oldSize then (false, p)
  else
    let p := p.deleteTuple slotNum
    let newFsp := subUInt32 p.getFreeSpacePointer newData.length
    let p := p.setFreeSpacePointer newFsp
    let p : TablePage := ⟨blit p.data newFsp newData⟩
    let p := p.setTupleOffsetAtSlot slotNum newFsp
    (true, p.setTupleLengthAtSlot slotNum newData.length)

/-! ## What a page holds -/

/-- The page links to `next` and holds the tuples `slots`. -/
structure PageRep (p : TablePage) (next : PageId) (slots : List (List UInt8)) : Prop where
  next : p.getNextPageId = next
  num : p.getNumTuples = slots.length
  room : sizeTablePageHeader + slots.length * sizeTupleSlot ≤ p.getFreeSpacePointer
  fsp_le : p.getFreeSpacePointer ≤ pageSize
  length : ∀ i (h : i < slots.length), p.getTupleLengthAtSlot i = slots[i].length
  offset : ∀ i (h : i < slots.length), slots[i] ≠ [] →
    p.getFreeSpacePointer ≤ p.getTupleOffsetAtSlot i ∧
      p.getTupleOffsetAtSlot i + slots[i].length ≤ pageSize ∧
      slice p.data (p.getTupleOffsetAtSlot i) slots[i].length = slots[i]

theorem slotOffset_of_lt {i : Nat} (h : i < 2 ^ 16) : slotOffset i = 16 + 4 * i := by
  rw [slotOffset, Nat.mod_eq_of_lt h, sizeTablePageHeader, sizeTupleSlot, Nat.mul_comm]

variable {p : TablePage} {next : PageId} {slots : List (List UInt8)}

theorem PageRep.slots_lt (h : PageRep p next slots) : slots.length ≤ 1020 := by
  have hroom := h.room
  have hfsp := h.fsp_le
  simp only [sizeTablePageHeader, sizeTupleSlot, pageSize] at hroom hfsp
  omega

theorem PageRep.fsp_bounds (h : PageRep p next slots) :
    16 + 4 * slots.length ≤ p.getFreeSpacePointer ∧ p.getFreeSpacePointer ≤ 4096 := by
  have hroom := h.room
  have hfsp := h.fsp_le
  simp only [sizeTablePageHeader, sizeTupleSlot, pageSize] at hroom hfsp
  omega

theorem pageRep_init (hnext : IsInt32 next) : PageRep (init next) next [] where
  next := by
    rw [getNextPageId, readInt32]
    simp only [init, setFreeSpacePointer, setNumTuples, setNextPageId]
    rw [readLE_writeLE_disjoint _ (by omega), readLE_writeLE_disjoint _ (by omega)]
    exact readInt32_writeInt32_self _ 0 hnext
  num := by
    simp only [getNumTuples, init, setFreeSpacePointer, setNumTuples]
    rw [readLE_writeLE_disjoint _ (by omega), readLE_writeLE_self]
    rfl
  room := by
    simp only [getFreeSpacePointer, init, setFreeSpacePointer]
    rw [readLE_writeLE_self]
    decide
  fsp_le := by
    simp only [getFreeSpacePointer, init, setFreeSpacePointer]
    rw [readLE_writeLE_self]
    decide
  length := fun i h => absurd h (Nat.not_lt_zero i)
  offset := fun i h => absurd h (Nat.not_lt_zero i)

/-- A tuple is returned as it was stored. -/
theorem PageRep.getTuple (h : PageRep p next slots) {i : Nat} (hi : i < slots.length) :
    p.getTuple i = slots[i] := by
  rw [TablePage.getTuple, h.length i hi]
  by_cases hempty : slots[i] = []
  · rw [hempty]
    rfl
  · exact (h.offset i hi hempty).2.2

theorem PageRep.getTupleSize (h : PageRep p next slots) {i : Nat} (hi : i < slots.length) :
    p.getTupleSize i = slots[i].length := h.length i hi

/-- The free space is what lies between the slots and the tuples. -/
theorem PageRep.getFreeSpaceRemaining (h : PageRep p next slots) :
    p.getFreeSpaceRemaining = p.getFreeSpacePointer - (16 + 4 * slots.length) := by
  have hbounds := h.fsp_bounds
  simp only [TablePage.getFreeSpaceRemaining, h.num, sizeTablePageHeader, sizeTupleSlot]
  rw [subUInt32_of_le (by omega) (by omega), Nat.mul_comm]

/-! ## Insertion -/

/-- The bytes after a tuple was inserted as slot `n` at `newFsp`. -/
def insertedMem (m : Mem) (n newFsp : Nat) (tuple : List UInt8) : Mem :=
  let m := writeLE m 8 4 newFsp
  let m := blit m newFsp tuple
  let m := writeLE m (16 + 4 * n) 2 newFsp
  let m := writeLE m (16 + 4 * n + 2) 2 tuple.length
  writeLE m 4 4 (n + 1)

section InsertedMem

variable (m : Mem) {n newFsp : Nat} {tuple : List UInt8}

/-- Bytes outside the two counters, the new slot and the new tuple. -/
theorem slice_insertedMem {off len : Nat} (hheader : off + len ≤ 4 ∨ 12 ≤ off)
    (hslot : off + len ≤ 16 + 4 * n ∨ 20 + 4 * n ≤ off)
    (hbody : off + len ≤ newFsp ∨ newFsp + tuple.length ≤ off) :
    slice (insertedMem m n newFsp tuple) off len = slice m off len := by
  rw [insertedMem, slice_writeLE_disjoint _ (by omega), slice_writeLE_disjoint _ (by omega),
    slice_writeLE_disjoint _ (by omega), slice_blit_disjoint _ hbody,
    slice_writeLE_disjoint _ (by omega)]

theorem readLE_insertedMem_num (hn : n + 1 < 256 ^ 4) :
    readLE (insertedMem m n newFsp tuple) 4 4 = n + 1 := by
  rw [insertedMem, readLE_writeLE_self, Nat.mod_eq_of_lt hn]

theorem readLE_insertedMem_fsp (hfsp : newFsp < 256 ^ 4) (hbody : 12 ≤ newFsp) :
    readLE (insertedMem m n newFsp tuple) 8 4 = newFsp := by
  rw [insertedMem, readLE_writeLE_disjoint _ (by omega), readLE_writeLE_disjoint _ (by omega),
    readLE_writeLE_disjoint _ (by omega), readLE_blit_disjoint _ (by omega), readLE_writeLE_self,
    Nat.mod_eq_of_lt hfsp]

theorem readLE_insertedMem_offset (hfsp : newFsp < 256 ^ 2) :
    readLE (insertedMem m n newFsp tuple) (16 + 4 * n) 2 = newFsp := by
  rw [insertedMem, readLE_writeLE_disjoint _ (by omega), readLE_writeLE_disjoint _ (by omega),
    readLE_writeLE_self, Nat.mod_eq_of_lt hfsp]

theorem readLE_insertedMem_length (hlen : tuple.length < 256 ^ 2) :
    readLE (insertedMem m n newFsp tuple) (16 + 4 * n + 2) 2 = tuple.length := by
  rw [insertedMem, readLE_writeLE_disjoint _ (by omega), readLE_writeLE_self,
    Nat.mod_eq_of_lt hlen]

theorem slice_insertedMem_tuple (hbody : 20 + 4 * n ≤ newFsp) :
    slice (insertedMem m n newFsp tuple) newFsp tuple.length = tuple := by
  rw [insertedMem, slice_writeLE_disjoint _ (by omega), slice_writeLE_disjoint _ (by omega),
    slice_writeLE_disjoint _ (by omega), slice_blit_self]

end InsertedMem

/-- **A tuple that does not fit** leaves the page as it is. -/
theorem PageRep.insertTuple_full (h : PageRep p next slots) {tuple : List UInt8}
    (hfull : p.getFreeSpacePointer < 16 + 4 * slots.length + (tuple.length + 4)) :
    p.insertTuple tuple = (none, p) := by
  have hbounds := h.fsp_bounds
  rw [TablePage.insertTuple, if_pos]
  rw [h.getFreeSpaceRemaining, sizeTupleSlot]
  omega

/-- The bytes after a tuple that fits was inserted. -/
theorem PageRep.insertTuple_eq (h : PageRep p next slots) {tuple : List UInt8} {newFsp : Nat}
    (hnew : newFsp + tuple.length = p.getFreeSpacePointer)
    (hfits : 20 + 4 * slots.length ≤ newFsp) :
    p.insertTuple tuple =
      (some slots.length, ⟨insertedMem p.data slots.length newFsp tuple⟩) := by
  have hbounds := h.fsp_bounds
  have hn : slots.length % 2 ^ 16 = slots.length := Nat.mod_eq_of_lt (by omega)
  have hwrap : subUInt32 p.getFreeSpacePointer tuple.length = newFsp := by
    rw [subUInt32_of_le (by omega) (by omega)]
    omega
  rw [TablePage.insertTuple, if_neg]
  · simp only [h.num, hwrap, hn, setNumTuples, setTupleLengthAtSlot, setTupleOffsetAtSlot,
      setFreeSpacePointer, slotOffset_of_lt (by omega : slots.length < 2 ^ 16), insertedMem]
  · rw [h.getFreeSpaceRemaining, sizeTupleSlot]
    omega

theorem PageRep.fsp_insertTuple (h : PageRep p next slots) {tuple : List UInt8} {p' : TablePage}
    (hfits : 16 + 4 * slots.length + (tuple.length + 4) ≤ p.getFreeSpacePointer)
    (hins : p.insertTuple tuple = (some slots.length, p')) :
    p'.getFreeSpacePointer + tuple.length = p.getFreeSpacePointer := by
  have hbounds := h.fsp_bounds
  obtain ⟨newFsp, hnew⟩ : ∃ newFsp, newFsp + tuple.length = p.getFreeSpacePointer :=
    ⟨p.getFreeSpacePointer - tuple.length, by omega⟩
  rw [h.insertTuple_eq hnew (by omega)] at hins
  obtain ⟨-, rfl⟩ := Prod.mk.inj hins
  rw [getFreeSpacePointer, readLE_insertedMem_fsp _ (by omega) (by omega)]
  exact hnew

/-- **A tuple that fits** becomes the next slot; the other slots keep theirs. -/
theorem PageRep.insertTuple (h : PageRep p next slots) {tuple : List UInt8}
    (hfits : 16 + 4 * slots.length + (tuple.length + 4) ≤ p.getFreeSpacePointer) :
    ∃ p', p.insertTuple tuple = (some slots.length, p') ∧ PageRep p' next (slots ++ [tuple]) := by
  have hbounds := h.fsp_bounds
  obtain ⟨newFsp, hnew⟩ : ∃ newFsp, newFsp + tuple.length = p.getFreeSpacePointer :=
    ⟨p.getFreeSpacePointer - tuple.length, by omega⟩
  have hslot : ∀ i, i ≤ slots.length → slotOffset i = 16 + 4 * i := fun i hi =>
    slotOffset_of_lt (by omega)
  refine ⟨_, h.insertTuple_eq hnew (by omega), ?_⟩
  have hfsp : getFreeSpacePointer ⟨insertedMem p.data slots.length newFsp tuple⟩ = newFsp :=
    readLE_insertedMem_fsp _ (by omega) (by omega)
  constructor
  case next =>
    rw [← h.next, getNextPageId, getNextPageId, readInt32, readInt32, readLE, readLE,
      slice_insertedMem _ (by omega) (by omega) (by omega)]
  case num =>
    rw [getNumTuples, readLE_insertedMem_num _ (by omega), List.length_append]
    rfl
  case room =>
    rw [hfsp, List.length_append, sizeTablePageHeader, sizeTupleSlot]
    simp only [List.length_singleton]
    omega
  case fsp_le =>
    rw [hfsp, pageSize]
    omega
  case length =>
    intro i hi
    rw [List.length_append, List.length_singleton] at hi
    rw [getTupleLengthAtSlot, hslot i (by omega)]
    by_cases hlast : i < slots.length
    · rw [List.getElem_append_left hlast, ← h.length i hlast, getTupleLengthAtSlot,
        hslot i (by omega), readLE, readLE, slice_insertedMem _ (by omega) (by omega) (by omega)]
    · obtain rfl : i = slots.length := by omega
      rw [readLE_insertedMem_length _ (by omega)]
      simp
  case offset =>
    intro i hi hlive
    rw [List.length_append, List.length_singleton] at hi
    rw [hfsp, getTupleOffsetAtSlot, hslot i (by omega)]
    by_cases hlast : i < slots.length
    · rw [List.getElem_append_left hlast] at hlive ⊢
      obtain ⟨hlo, hhi, hbytes⟩ := h.offset i hlast hlive
      have hsame : readLE (insertedMem p.data slots.length newFsp tuple) (16 + 4 * i) 2 =
          p.getTupleOffsetAtSlot i := by
        rw [getTupleOffsetAtSlot, hslot i (by omega), readLE, readLE,
          slice_insertedMem _ (by omega) (by omega) (by omega)]
      rw [hsame]
      refine ⟨by omega, hhi, ?_⟩
      rw [slice_insertedMem _ (by omega) (by omega) (by omega), hbytes]
    · obtain rfl : i = slots.length := by omega
      rw [readLE_insertedMem_offset _ (by omega)]
      simp only [List.getElem_concat_length]
      refine ⟨Nat.le_refl _, by rw [pageSize]; omega, slice_insertedMem_tuple _ (by omega)⟩

/-- A tuple for which there is room, and the room that is left. -/
theorem PageRep.insertTuple_room (h : PageRep p next slots) {tuple : List UInt8}
    (hroom : tuple.length + 4 ≤ p.getFreeSpaceRemaining) :
    ∃ p', p.insertTuple tuple = (some slots.length, p') ∧ PageRep p' next (slots ++ [tuple]) ∧
      p'.getFreeSpaceRemaining + (tuple.length + 4) = p.getFreeSpaceRemaining := by
  have hfree := h.getFreeSpaceRemaining
  have hfits : 16 + 4 * slots.length + (tuple.length + 4) ≤ p.getFreeSpacePointer := by omega
  obtain ⟨p', hinsert, hpage'⟩ := h.insertTuple hfits
  have hfsp := h.fsp_insertTuple hfits hinsert
  refine ⟨p', hinsert, hpage', ?_⟩
  rw [hpage'.getFreeSpaceRemaining, List.length_append, List.length_singleton]
  omega

/-! ## Deletion and links -/

/-- **Deletion** empties one slot. -/
theorem PageRep.deleteTuple (h : PageRep p next slots) {i : Nat} (hi : i < slots.length) :
    PageRep (p.deleteTuple i) next (slots.set i []) := by
  have hbounds := h.fsp_bounds
  have hslot : ∀ j, j < slots.length → slotOffset j = 16 + 4 * j := fun j hj =>
    slotOffset_of_lt (by omega)
  -- reads that miss the four bytes of the slot
  have hother : ∀ {off len}, off + len ≤ 16 + 4 * i ∨ 20 + 4 * i ≤ off →
      slice (p.deleteTuple i).data off len = slice p.data off len := by
    intro off len hoff
    simp only [TablePage.deleteTuple, setTupleOffsetAtSlot, setTupleLengthAtSlot, hslot i hi]
    rw [slice_writeLE_disjoint _ (by omega), slice_writeLE_disjoint _ (by omega)]
  have hfsp : (p.deleteTuple i).getFreeSpacePointer = p.getFreeSpacePointer := by
    rw [getFreeSpacePointer, readLE, hother (by omega)]
    rfl
  constructor
  case next =>
    rw [← h.next, getNextPageId, readInt32, readLE, hother (by omega)]
    rfl
  case num =>
    rw [List.length_set, ← h.num, getNumTuples, readLE, hother (by omega)]
    rfl
  case room =>
    rw [hfsp, List.length_set]
    exact h.room
  case fsp_le =>
    rw [hfsp]
    exact h.fsp_le
  case length =>
    intro j hj
    rw [List.length_set] at hj
    by_cases hij : i = j
    · subst hij
      rw [List.getElem_set_self, List.length_nil]
      simp only [getTupleLengthAtSlot, TablePage.deleteTuple, setTupleOffsetAtSlot,
        setTupleLengthAtSlot]
      rw [readLE_writeLE_disjoint _ (by omega), readLE_writeLE_self, Nat.zero_mod]
    · rw [List.getElem_set_ne hij, ← h.length j hj, getTupleLengthAtSlot, getTupleLengthAtSlot,
        hslot j hj, readLE, readLE, hother (by omega)]
  case offset =>
    intro j hj hlive
    rw [List.length_set] at hj
    have hij : i ≠ j := by
      rintro rfl
      exact hlive (List.getElem_set_self _)
    rw [List.getElem_set_ne hij] at hlive ⊢
    obtain ⟨hlo, hhi, hbytes⟩ := h.offset j hj hlive
    have hsame : (p.deleteTuple i).getTupleOffsetAtSlot j = p.getTupleOffsetAtSlot j := by
      rw [getTupleOffsetAtSlot, getTupleOffsetAtSlot, hslot j hj, readLE, readLE,
        hother (by omega)]
    rw [hfsp, hsame]
    refine ⟨hlo, hhi, ?_⟩
    rw [hother (by omega), hbytes]

/-- Linking the page to another one leaves the tuples alone. -/
theorem PageRep.setNextPageId (h : PageRep p next slots) {next' : PageId} (hnext : IsInt32 next') :
    PageRep (p.setNextPageId next') next' slots := by
  have hbounds := h.fsp_bounds
  have hslot : ∀ j, j < slots.length → slotOffset j = 16 + 4 * j := fun j hj =>
    slotOffset_of_lt (by omega)
  have hother : ∀ {off len}, 4 ≤ off →
      slice (p.setNextPageId next').data off len = slice p.data off len := by
    intro off len hoff
    exact slice_writeLE_disjoint _ (by omega)
  have hfsp : (p.setNextPageId next').getFreeSpacePointer = p.getFreeSpacePointer := by
    rw [getFreeSpacePointer, readLE, hother (by omega)]
    rfl
  constructor
  case next => exact readInt32_writeInt32_self p.data 0 hnext
  case num =>
    rw [← h.num, getNumTuples, readLE, hother (by omega)]
    rfl
  case room =>
    rw [hfsp]
    exact h.room
  case fsp_le =>
    rw [hfsp]
    exact h.fsp_le
  case length =>
    intro j hj
    rw [← h.length j hj, getTupleLengthAtSlot, getTupleLengthAtSlot, hslot j hj, readLE, readLE,
      hother (by omega)]
  case offset =>
    intro j hj hlive
    obtain ⟨hlo, hhi, hbytes⟩ := h.offset j hj hlive
    have hsame : (p.setNextPageId next').getTupleOffsetAtSlot j = p.getTupleOffsetAtSlot j := by
      rw [getTupleOffsetAtSlot, getTupleOffsetAtSlot, hslot j hj, readLE, readLE,
        hother (by omega)]
    rw [hfsp, hsame]
    refine ⟨hlo, hhi, ?_⟩
    rw [hother (by omega), hbytes]

theorem getFreeSpacePointer_init (next : PageId) : (init next).getFreeSpacePointer = 4096 := by
  simp only [getFreeSpacePointer, init, setFreeSpacePointer]
  rw [readLE_writeLE_self]
  rfl

/-- An empty page has room for 4080 bytes of tuples and slots. -/
theorem getFreeSpaceRemaining_init (hnext : IsInt32 next) :
    (init next).getFreeSpaceRemaining = 4080 := by
  rw [(pageRep_init hnext).getFreeSpaceRemaining, getFreeSpacePointer_init]
  rfl

/-- A fresh page has room for a tuple of at most 4076 bytes. -/
theorem insertTuple_init (hnext : IsInt32 next) {tuple : List UInt8}
    (hlen : tuple.length ≤ 4076) :
    ∃ p, (init next).insertTuple tuple = (some 0, p) ∧ PageRep p next [tuple] := by
  refine (pageRep_init hnext).insertTuple ?_
  rw [getFreeSpacePointer_init]
  simp only [List.length_nil]
  omega

-- from here on pages are used through `PageRep`
attribute [irreducible] init insertTuple deleteTuple getTuple getTupleSize getNextPageId
  setNextPageId getNumTuples

end TablePage

end OneBase
