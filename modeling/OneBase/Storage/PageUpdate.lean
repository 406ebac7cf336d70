import OneBase.Storage.TablePage

/-!
# Updates on a page (`TablePage::UpdateTuple`)

The new tuple is put below the other tuples, as a whole; the old one stays where it is, and
its slot is pointed to the new one. The check for space looks at the difference of the sizes.

- `TablePage.WellFormed`: slots, tuples and the free space do not overlap.
- `PageRep.updateTuple`: a tuple that fits in the free space replaces the old one.
- `updateTuple_correct_iff`: the sizes for which an update is right.
-/

namespace OneBase

open Cpp

namespace TablePage

/-- **The page is well-formed**: the slots end before the free space pointer, and the tuples are
after it and do not overlap. -/
structure WellFormed (p : TablePage) : Prop where
  room : 16 + 4 * p.getNumTuples ≤ p.getFreeSpacePointer
  fsp_le : p.getFreeSpacePointer ≤ 4096
  inside : ∀ i < p.getNumTuples, p.getTupleLengthAtSlot i ≠ 0 →
    p.getFreeSpacePointer ≤ p.getTupleOffsetAtSlot i ∧
      p.getTupleOffsetAtSlot i + p.getTupleLengthAtSlot i ≤ 4096
  disjoint : ∀ i < p.getNumTuples, ∀ j < p.getNumTuples, i ≠ j → p.getTupleLengthAtSlot i ≠ 0 →
    p.getTupleLengthAtSlot j ≠ 0 →
    p.getTupleOffsetAtSlot i + p.getTupleLengthAtSlot i ≤ p.getTupleOffsetAtSlot j ∨
      p.getTupleOffsetAtSlot j + p.getTupleLengthAtSlot j ≤ p.getTupleOffsetAtSlot i

/-! ## The bytes after an update -/

/-- The bytes after the tuple of slot `n` was replaced by one at `newFsp`. -/
def updatedMem (m : Mem) (n newFsp : Nat) (tuple : List UInt8) : Mem :=
  let m := writeLE m (16 + 4 * n + 2) 2 0
  let m := writeLE m (16 + 4 * n) 2 0
  let m := writeLE m 8 4 newFsp
  let m := blit m newFsp tuple
  let m := writeLE m (16 + 4 * n) 2 newFsp
  writeLE m (16 + 4 * n + 2) 2 tuple.length

section UpdatedMem

variable (m : Mem) {n newFsp : Nat} {tuple : List UInt8}

/-- Bytes outside the free space pointer, the slot and the new tuple. -/
theorem slice_updatedMem {off len : Nat} (hheader : off + len ≤ 8 ∨ 12 ≤ off)
    (hslot : off + len ≤ 16 + 4 * n ∨ 20 + 4 * n ≤ off)
    (hbody : off + len ≤ newFsp ∨ newFsp + tuple.length ≤ off) :
    slice (updatedMem m n newFsp tuple) off len = slice m off len := by
  rw [updatedMem, slice_writeLE_disjoint _ (by omega), slice_writeLE_disjoint _ (by omega),
    slice_blit_disjoint _ hbody, slice_writeLE_disjoint _ (by omega),
    slice_writeLE_disjoint _ (by omega), slice_writeLE_disjoint _ (by omega)]

theorem readLE_updatedMem_fsp (hfsp : newFsp < 256 ^ 4) (hbody : 12 ≤ newFsp) :
    readLE (updatedMem m n newFsp tuple) 8 4 = newFsp := by
  rw [updatedMem, readLE_writeLE_disjoint _ (by omega), readLE_writeLE_disjoint _ (by omega),
    readLE_blit_disjoint _ (by omega), readLE_writeLE_self, Nat.mod_eq_of_lt hfsp]

theorem readLE_updatedMem_offset (hfsp : newFsp < 256 ^ 2) :
    readLE (updatedMem m n newFsp tuple) (16 + 4 * n) 2 = newFsp := by
  rw [updatedMem, readLE_writeLE_disjoint _ (by omega), readLE_writeLE_self, Nat.mod_eq_of_lt hfsp]

theorem readLE_updatedMem_length (hlen : tuple.length < 256 ^ 2) :
    readLE (updatedMem m n newFsp tuple) (16 + 4 * n + 2) 2 = tuple.length := by
  rw [updatedMem, readLE_writeLE_self, Nat.mod_eq_of_lt hlen]

theorem slice_updatedMem_tuple (hbody : 20 + 4 * n ≤ newFsp) :
    slice (updatedMem m n newFsp tuple) newFsp tuple.length = tuple := by
  rw [updatedMem, slice_writeLE_disjoint _ (by omega), slice_writeLE_disjoint _ (by omega),
    slice_blit_self]

/-- A free space pointer that wraps is behind the page. -/
theorem fsp_updatedMem_wrap {fsp : Nat} (hwrap : fsp < tuple.length) (hlen : tuple.length ≤ 8192) :
    4096 < readLE (updatedMem m n (subUInt32 fsp tuple.length) tuple) 8 4 := by
  have hfar : 4096 < subUInt32 fsp tuple.length ∧ subUInt32 fsp tuple.length < 2 ^ 32 := by
    rw [subUInt32]
    omega
  rw [readLE_updatedMem_fsp _ (by omega) (by omega)]
  exact hfar.1

end UpdatedMem

/-! ## An update that fits -/

variable {p : TablePage} {next : PageId} {slots : List (List UInt8)} {n : Nat} {tuple : List UInt8}

/-- `DeleteTuple` does not change the free space pointer. -/
theorem getFreeSpacePointer_deleteTuple (p : TablePage) {n : Nat} :
    (p.deleteTuple n).getFreeSpacePointer = p.getFreeSpacePointer := by
  have hslot : 16 ≤ slotOffset n := Nat.le_add_right _ _
  simp only [getFreeSpacePointer, deleteTuple, setTupleOffsetAtSlot, setTupleLengthAtSlot]
  rw [readLE_writeLE_disjoint _ (by omega), readLE_writeLE_disjoint _ (by omega)]

/-- Where the check lets the update pass. -/
theorem updateTuple_eq (hn : n < 2 ^ 16)
    (hpass : ¬ (p.getTupleLengthAtSlot n < tuple.length ∧
      p.getFreeSpaceRemaining < subUInt32 tuple.length (p.getTupleLengthAtSlot n))) :
    p.updateTuple n tuple =
      (true, ⟨updatedMem p.data n (subUInt32 p.getFreeSpacePointer tuple.length) tuple⟩) := by
  rw [updateTuple, if_neg hpass]
  simp only [getFreeSpacePointer_deleteTuple]
  simp only [deleteTuple, setFreeSpacePointer, setTupleOffsetAtSlot, setTupleLengthAtSlot,
    slotOffset_of_lt hn, updatedMem]

/-- **A tuple that fits in the free space** replaces the old one; the other slots keep theirs. -/
theorem PageRep.updateTuple (h : PageRep p next slots) (hn : n < slots.length)
    (hfits : 16 + 4 * slots.length + tuple.length ≤ p.getFreeSpacePointer) :
    ∃ p', p.updateTuple n tuple = (true, p') ∧ PageRep p' next (slots.set n tuple) ∧
      p'.getFreeSpacePointer + tuple.length = p.getFreeSpacePointer ∧
      p'.getTupleOffsetAtSlot n = p'.getFreeSpacePointer ∧
      ∀ i < slots.length, i ≠ n → p'.getTupleOffsetAtSlot i = p.getTupleOffsetAtSlot i := by
  have hbounds := h.fsp_bounds
  obtain ⟨newFsp, hnew⟩ : ∃ newFsp, newFsp + tuple.length = p.getFreeSpacePointer :=
    ⟨p.getFreeSpacePointer - tuple.length, by omega⟩
  have hwrap : subUInt32 p.getFreeSpacePointer tuple.length = newFsp := by
    rw [subUInt32_of_le (by omega) (by omega)]
    omega
  have hslot : ∀ i, i < slots.length → slotOffset i = 16 + 4 * i := fun i hi =>
    slotOffset_of_lt (by omega)
  have hpass : ¬ (p.getTupleLengthAtSlot n < tuple.length ∧
      p.getFreeSpaceRemaining < subUInt32 tuple.length (p.getTupleLengthAtSlot n)) := by
    rintro ⟨hlt, hless⟩
    rw [h.getFreeSpaceRemaining, subUInt32_of_le (Nat.le_of_lt hlt) (by omega)] at hless
    omega
  have hfsp : getFreeSpacePointer ⟨updatedMem p.data n newFsp tuple⟩ = newFsp :=
    readLE_updatedMem_fsp _ (by omega) (by omega)
  have hoffset : getTupleOffsetAtSlot ⟨updatedMem p.data n newFsp tuple⟩ n = newFsp := by
    rw [getTupleOffsetAtSlot, hslot n hn, readLE_updatedMem_offset _ (by omega)]
  have hothers : ∀ i < slots.length, i ≠ n →
      getTupleOffsetAtSlot ⟨updatedMem p.data n newFsp tuple⟩ i = p.getTupleOffsetAtSlot i := by
    intro i hi hne
    rw [getTupleOffsetAtSlot, getTupleOffsetAtSlot, hslot i hi, readLE, readLE,
      slice_updatedMem _ (by omega) (by omega) (by omega)]
  refine ⟨⟨updatedMem p.data n newFsp tuple⟩, ?_, ?_, by rw [hfsp, hnew], by rw [hoffset, hfsp],
    hothers⟩
  · rw [updateTuple_eq (by omega) hpass, hwrap]
  · constructor
    case next =>
      rw [← h.next, getNextPageId, getNextPageId, readInt32, readInt32, readLE, readLE,
        slice_updatedMem _ (by omega) (by omega) (by omega)]
    case num =>
      rw [List.length_set, ← h.num, getNumTuples, getNumTuples, readLE, readLE,
        slice_updatedMem _ (by omega) (by omega) (by omega)]
    case room =>
      rw [hfsp, List.length_set, sizeTablePageHeader, sizeTupleSlot]
      omega
    case fsp_le =>
      rw [hfsp, pageSize]
      omega
    case length =>
      intro i hi
      rw [List.length_set] at hi
      rw [getTupleLengthAtSlot, hslot i hi]
      by_cases hin : n = i
      · subst hin
        rw [readLE_updatedMem_length _ (by omega), List.getElem_set_self]
      · rw [List.getElem_set_ne hin, ← h.length i hi, getTupleLengthAtSlot, hslot i hi, readLE,
          readLE,
          slice_updatedMem _ (by omega) (by omega) (by omega)]
    case offset =>
      intro i hi hlive
      rw [List.length_set] at hi
      rw [hfsp]
      by_cases hin : n = i
      · subst hin
        rw [List.getElem_set_self, hoffset]
        refine ⟨Nat.le_refl _, by rw [pageSize]; omega, slice_updatedMem_tuple _ (by omega)⟩
      · rw [List.getElem_set_ne hin] at hlive ⊢
        obtain ⟨hlo, hhi, hbytes⟩ := h.offset i hi hlive
        rw [hothers i hi (Ne.symm hin)]
        refine ⟨by omega, hhi, ?_⟩
        rw [slice_updatedMem _ (by omega) (by omega) (by omega), hbytes]

/-- **A tuple that is longer than the free space** is not in its slot afterwards, or the page is
not one any more. -/
theorem PageRep.updateTuple_long (h : PageRep p next slots) (hn : n < slots.length)
    (hlong : p.getFreeSpaceRemaining < tuple.length) {p' : TablePage}
    (hrun : p.updateTuple n (tuple.take (tuple.length % 2 ^ 32)) = (true, p')) {next' : PageId}
    {slots' : List (List UInt8)} (h' : PageRep p' next' slots') : slots'[n]? ≠ some tuple := by
  intro hget
  have hbounds := h.fsp_bounds
  have hbounds' := h'.fsp_bounds
  have hslot : slotOffset n = 16 + 4 * n := slotOffset_of_lt (by omega)
  obtain ⟨hn', htuple⟩ := List.getElem?_eq_some_iff.mp hget
  have hne : tuple ≠ [] := by
    rintro rfl
    exact Nat.not_lt_zero _ hlong
  rw [h.getFreeSpaceRemaining] at hlong
  obtain ⟨hlo, hhi, -⟩ := h'.offset n hn' (htuple ▸ hne)
  rw [htuple, pageSize] at hhi
  have hpass : ¬ (p.getTupleLengthAtSlot n < (tuple.take (tuple.length % 2 ^ 32)).length ∧
      p.getFreeSpaceRemaining < subUInt32 (tuple.take (tuple.length % 2 ^ 32)).length
        (p.getTupleLengthAtSlot n)) := by
    intro hfail
    rw [TablePage.updateTuple, if_pos hfail] at hrun
    cases hrun
  rw [updateTuple_eq (by omega) hpass] at hrun
  obtain ⟨-, rfl⟩ := Prod.mk.inj hrun
  -- a page holds at most 4096 bytes, so the length was not cut
  rw [Nat.mod_eq_of_lt (by omega), List.take_length] at h' hlo hhi hbounds'
  by_cases hwrap : tuple.length ≤ p.getFreeSpacePointer
  · rw [subUInt32_of_le hwrap (by omega)] at h' hlo hbounds'
    have hoffset : getTupleOffsetAtSlot
        ⟨updatedMem p.data n (p.getFreeSpacePointer - tuple.length) tuple⟩ n =
          p.getFreeSpacePointer - tuple.length := by
      rw [getTupleOffsetAtSlot, hslot, readLE_updatedMem_offset _ (by omega)]
    rw [hoffset] at hlo
    -- the header is before the tuple, so the number of slots is as before
    have hnum : slots'.length = slots.length := by
      rw [← h'.num, ← h.num, getNumTuples, getNumTuples, readLE, readLE,
        slice_updatedMem _ (by omega) (by omega) (by omega)]
    omega
  · have hfar := @fsp_updatedMem_wrap p.data n tuple _ (Nat.not_le.mp hwrap) (by omega)
    exact absurd hbounds'.2 (Nat.not_le.mpr hfar)

/-! ## Which updates are right -/

/-- The tuples of the page, slot by slot. -/
def tuples (p : TablePage) : List (List UInt8) := (List.range p.getNumTuples).map p.getTuple

@[simp] theorem length_tuples (p : TablePage) : p.tuples.length = p.getNumTuples := by
  simp [tuples]

theorem getElem_tuples (p : TablePage) {i : Nat} (hi : i < p.tuples.length) :
    p.tuples[i] = p.getTuple i := by
  simp [tuples]

theorem length_getTuple (p : TablePage) (i : Nat) :
    (p.getTuple i).length = p.getTupleLengthAtSlot i := by
  rw [getTuple, length_slice]

theorem WellFormed.pageRep (hwf : p.WellFormed) : PageRep p p.getNextPageId p.tuples where
  next := rfl
  num := p.length_tuples.symm
  room := by
    have hroom := hwf.room
    rw [length_tuples, sizeTablePageHeader, sizeTupleSlot]
    omega
  fsp_le := hwf.fsp_le
  length := fun i hi => by rw [getElem_tuples, length_getTuple]
  offset := fun i hi hlive => by
    rw [length_tuples] at hi
    rw [getElem_tuples] at hlive
    have hlen : p.getTupleLengthAtSlot i ≠ 0 := by
      rw [← length_getTuple]
      exact fun hzero => hlive (List.length_eq_zero_iff.mp hzero)
    obtain ⟨hlo, hhi⟩ := hwf.inside i hi hlen
    rw [getElem_tuples, length_getTuple]
    exact ⟨hlo, hhi, by rw [getTuple]⟩

/-- What a successful update leaves behind. -/
structure Updated (p p' : TablePage) (n : Nat) (tuple : List UInt8) : Prop where
  wellFormed : p'.WellFormed
  tuple : p'.getTuple n = tuple
  next : p'.getNextPageId = p.getNextPageId
  num : p'.getNumTuples = p.getNumTuples
  others : ∀ i < p.getNumTuples, i ≠ n →
    p'.getTupleOffsetAtSlot i = p.getTupleOffsetAtSlot i ∧
      p'.getTupleLengthAtSlot i = p.getTupleLengthAtSlot i ∧ p'.getTuple i = p.getTuple i

/-- **An update is right**: it fails and changes no byte, or it replaces the tuple of the slot and
nothing else. -/
def UpdatesOrFails (p : TablePage) (n : Nat) (tuple : List UInt8) : Prop :=
  p.updateTuple n tuple = (false, p) ∨
    ∃ p', p.updateTuple n tuple = (true, p') ∧ Updated p p' n tuple

theorem WellFormed.updated (hwf : p.WellFormed) (hn : n < p.getNumTuples)
    (hfits : tuple.length ≤ p.getFreeSpaceRemaining) :
    ∃ p', p.updateTuple n tuple = (true, p') ∧ Updated p p' n tuple := by
  have hrep := hwf.pageRep
  have hbounds := hrep.fsp_bounds
  rw [hrep.getFreeSpaceRemaining] at hfits
  rw [length_tuples] at hfits hbounds
  have hroom : 16 + 4 * p.tuples.length + tuple.length ≤ p.getFreeSpacePointer := by
    rw [length_tuples]
    omega
  obtain ⟨p', hrun, hrep', hfsp, hoffset, hothers⟩ :=
    hrep.updateTuple (p.length_tuples ▸ hn : n < p.tuples.length) hroom
  rw [length_tuples] at hothers
  have hnum : p'.getNumTuples = p.getNumTuples := by
    rw [hrep'.num, List.length_set, length_tuples]
  have hset : ∀ i, i < p.getNumTuples → i < (p.tuples.set n tuple).length := fun i hi => by
    rwa [List.length_set, length_tuples]
  have htuple : p'.getTuple n = tuple := by
    rw [hrep'.getTuple (hset n hn), List.getElem_set_self]
  have hsame : ∀ i < p.getNumTuples, i ≠ n → p'.getTuple i = p.getTuple i := by
    intro i hi hne
    rw [hrep'.getTuple (hset i hi), List.getElem_set_ne hne.symm, getElem_tuples]
  have hlength : ∀ i < p.getNumTuples, i ≠ n →
      p'.getTupleLengthAtSlot i = p.getTupleLengthAtSlot i := by
    intro i hi hne
    rw [← length_getTuple, hsame i hi hne, length_getTuple]
  have hnlength : p'.getTupleLengthAtSlot n = tuple.length := by rw [← length_getTuple, htuple]
  refine ⟨p', hrun, ⟨⟨?_, ?_, fun i hi hlive => ?_, fun i hi j hj hne hlivei hlivej => ?_⟩, htuple,
    hrep'.next, hnum, fun i hi hne => ⟨hothers i hi hne, hlength i hi hne, hsame i hi hne⟩⟩⟩
  · rw [hnum]
    omega
  · omega
  · rw [hnum] at hi
    by_cases hin : i = n
    · subst hin
      rw [hoffset, hnlength]
      omega
    · rw [hlength i hi hin] at hlive
      rw [hothers i hi hin, hlength i hi hin]
      obtain ⟨hlo, hhi⟩ := hwf.inside i hi hlive
      omega
  · -- the new tuple is below all others
    rw [hnum] at hi hj
    by_cases hin : i = n
    · subst hin
      have hjn : j ≠ i := Ne.symm hne
      rw [hlength j hj hjn] at hlivej
      have hlo := (hwf.inside j hj hlivej).1
      rw [hoffset, hnlength, hothers j hj hjn]
      omega
    · rw [hlength i hi hin] at hlivei
      by_cases hjn : j = n
      · subst hjn
        have hlo := (hwf.inside i hi hlivei).1
        rw [hoffset, hnlength, hothers i hi hin]
        omega
      · rw [hlength j hj hjn] at hlivej
        rw [hothers i hi hin, hothers j hj hjn, hlength i hi hin, hlength j hj hjn]
        exact hwf.disjoint i hi j hj hne hlivei hlivej

/-- **A tuple that is longer than the free space** is put where slots are, or before the page. -/
theorem WellFormed.not_updated (hwf : p.WellFormed) (hn : n < p.getNumTuples)
    (hlong : p.getFreeSpaceRemaining < tuple.length)
    (hshort : tuple.length ≤ p.getTupleLengthAtSlot n + p.getFreeSpaceRemaining)
    (hlive : p.getTupleLengthAtSlot n ≠ 0) : ¬ p.UpdatesOrFails n tuple := by
  have hrep := hwf.pageRep
  have hbounds := hrep.fsp_bounds
  have hinside := hwf.inside n hn hlive
  rw [hrep.getFreeSpaceRemaining] at hlong hshort
  rw [length_tuples] at hlong hshort hbounds
  have hpass : ¬ (p.getTupleLengthAtSlot n < tuple.length ∧
      p.getFreeSpaceRemaining < subUInt32 tuple.length (p.getTupleLengthAtSlot n)) := by
    rintro ⟨hlt, hless⟩
    rw [hrep.getFreeSpaceRemaining, length_tuples,
      subUInt32_of_le (Nat.le_of_lt hlt) (by omega)] at hless
    omega
  have hslot : slotOffset n = 16 + 4 * n := slotOffset_of_lt (by omega)
  rintro (hrun | ⟨p', hrun, hupdated⟩)
  · rw [updateTuple_eq (by omega) hpass] at hrun
    cases hrun
  · rw [updateTuple_eq (by omega) hpass] at hrun
    obtain ⟨-, rfl⟩ := Prod.mk.inj hrun
    have hroom := hupdated.wellFormed.room
    have hle := hupdated.wellFormed.fsp_le
    rw [hupdated.num] at hroom
    by_cases hwrap : tuple.length ≤ p.getFreeSpacePointer
    · rw [subUInt32_of_le hwrap (by omega)] at hroom hle hupdated
      -- the new tuple starts before the end of the slots
      have hlength : getTupleLengthAtSlot
          ⟨updatedMem p.data n (p.getFreeSpacePointer - tuple.length) tuple⟩ n = tuple.length := by
        rw [getTupleLengthAtSlot, hslot, readLE_updatedMem_length _ (by omega)]
      have hoffset : getTupleOffsetAtSlot
          ⟨updatedMem p.data n (p.getFreeSpacePointer - tuple.length) tuple⟩ n =
            p.getFreeSpacePointer - tuple.length := by
        rw [getTupleOffsetAtSlot, hslot, readLE_updatedMem_offset _ (by omega)]
      have hlo := (hupdated.wellFormed.inside n (hupdated.num ▸ hn) (by rw [hlength]; omega)).1
      rw [hoffset] at hlo
      omega
    · have hfar := @fsp_updatedMem_wrap p.data n tuple _ (Nat.not_le.mp hwrap) (by omega)
      exact absurd hle (Nat.not_le.mpr hfar)

/-- **An update is right** if and only if the new tuple fits in the free space, or is too long
even with the room of the old one. -/
theorem updateTuple_correct_iff (hwf : p.WellFormed) (hn : n < p.getNumTuples)
    (hlive : p.getTupleLengthAtSlot n ≠ 0) (hsize : tuple.length < 2 ^ 32) :
    p.UpdatesOrFails n tuple ↔ tuple.length ≤ p.getFreeSpaceRemaining ∨
      p.getTupleLengthAtSlot n + p.getFreeSpaceRemaining < tuple.length := by
  by_cases hfits : tuple.length ≤ p.getFreeSpaceRemaining
  · exact iff_of_true (.inr (hwf.updated hn hfits)) (.inl hfits)
  · by_cases hshort : tuple.length ≤ p.getTupleLengthAtSlot n + p.getFreeSpaceRemaining
    · exact iff_of_false (hwf.not_updated hn (by omega) hshort hlive) (by omega)
    · refine iff_of_true (.inl ?_) (.inr (by omega))
      rw [updateTuple, if_pos]
      refine ⟨by omega, ?_⟩
      rw [subUInt32_of_le (by omega) hsize]
      omega

/-- A page with one tuple is well-formed. -/
theorem PageRep.wellFormed_singleton (h : PageRep p next [tuple]) : p.WellFormed := by
  have hbounds := h.fsp_bounds
  have hnum : p.getNumTuples = 1 := h.num
  rw [List.length_singleton] at hbounds
  refine ⟨by omega, hbounds.2, fun i hi hlive => ?_, fun i hi j hj hne => by omega⟩
  obtain rfl : i = 0 := by omega
  have hlength : p.getTupleLengthAtSlot 0 = tuple.length := h.length 0 Nat.zero_lt_one
  obtain ⟨hlo, hhi, -⟩ := h.offset 0 Nat.zero_lt_one (by
    rintro hnil
    rw [List.getElem_singleton] at hnil
    exact hlive (by rw [hlength, hnil, List.length_nil]))
  rw [hlength]
  exact ⟨hlo, hhi⟩

/-- A page with one tuple of two bytes. -/
def twoBytes : TablePage := ((init invalidPageId).insertTuple [1, 2]).2

theorem twoBytes_wellFormed : twoBytes.WellFormed := by
  obtain ⟨p, hinsert, hrep⟩ := insertTuple_init (by decide : IsInt32 invalidPageId)
    (by decide : [(1 : UInt8), 2].length ≤ 4076)
  rw [twoBytes, hinsert]
  exact hrep.wellFormed_singleton

/-- A tuple of three bytes fits. -/
theorem updateTuple_correct_iff_twoBytes : twoBytes.UpdatesOrFails 0 [3, 4, 5] :=
  (updateTuple_correct_iff twoBytes_wellFormed (by decide +kernel) (by decide +kernel)
    (by decide)).mpr (.inl (by decide +kernel))

/-- A page that one tuple fills: a tuple of one byte is put on the slot. -/
theorem updateTuple_full_page :
    ¬ ∀ (p : TablePage) (n : Nat) (tuple : List UInt8), p.WellFormed → n < p.getNumTuples →
      p.getTupleLengthAtSlot n ≠ 0 → tuple.length < 2 ^ 32 → p.UpdatesOrFails n tuple := by
  intro hall
  obtain ⟨full, hfull⟩ : ∃ full : List UInt8, full.length = 4076 :=
    ⟨List.replicate 4076 0, List.length_replicate⟩
  obtain ⟨p, -, hrep⟩ := insertTuple_init (by decide : IsInt32 invalidPageId) (Nat.le_of_eq hfull)
  have hwf := hrep.wellFormed_singleton
  have hnum : p.getNumTuples = 1 := hrep.num
  have hlength : p.getTupleLengthAtSlot 0 = 4076 := (hrep.length 0 Nat.zero_lt_one).trans hfull
  have hinside := hwf.inside 0 (by omega) (by omega)
  have hfree := hrep.getFreeSpaceRemaining
  rw [List.length_singleton] at hfree
  have hone : [(1 : UInt8)].length = 1 := rfl
  have hbad : ¬ p.UpdatesOrFails 0 [1] :=
    hwf.not_updated (by omega) (by omega) (by omega) (by omega)
  exact hbad (hall p 0 [1] hwf (by omega) (by omega) (by decide))

end TablePage

end OneBase
