import OneBase.Buffer.PoolInvariant

/-!
# Calls on the pool that fail

`NewPage` and `FetchPage` look at the free list and at the replacer, not at the pin counts. By
the invariant of the pool both have nothing to offer exactly if every frame is pinned.

- `PoolInv.acquireFrame_none_iff`: no frame can be taken iff all are pinned.
- `poolRun_failures`: when the calls fail, and that they change nothing then.
- `poolRun_failures_negative`: a pin count that has wrapped around is not positive, and the
  frame is still not evictable.
-/

namespace OneBase

namespace BufferPoolManager

/-- Every frame has `pin_count_ > 0`. -/
def AllPinned (b : BufferPoolManager) : Prop := ∀ f, b.IsFrame f → 0 < (b.pages f).pinCount

section Acquire

variable {b : BufferPoolManager}

/-- A frame that was taken was not pinned. -/
theorem PoolInv.not_pinned (h : b.PoolInv none) {f : FrameId} {b' : BufferPoolManager}
    (htook : b.TookFrame f b') : b.IsFrame f ∧ ¬ 0 < (b.pages f).pinCount := by
  rcases htook with ⟨hfree, -, -⟩ | ⟨p, hp, hpin, -, -⟩
  · exact ⟨h.free_isFrame f hfree, fun hpin => h.free_unmapped f hfree (h.pinned_mapped f hpin)⟩
  · exact ⟨h.mapped_isFrame f ⟨p, hp⟩, fun hpos => absurd hpin (Int.ne_of_gt hpos)⟩

/-- Without a free frame and without an evictable one, all frames are pinned. -/
theorem PoolInv.allPinned (h : b.PoolInv none) (hfree : b.freeList = [])
    (hnone : ∀ f e, b.replacer.entries.lookup f = some e → e.isEvictable = false) :
    b.AllPinned := by
  intro f hf
  have hmapped : b.Mapped f := by
    rcases h.covered f hf (by simp) with hmem | hmapped
    · rw [hfree] at hmem
      exact absurd hmem List.not_mem_nil
    · exact hmapped
  obtain ⟨e, he⟩ := (h.tracked f).mpr hmapped
  have hpin : (b.pages f).pinCount ≠ 0 := fun hzero => by
    have hev := (h.evictable f e he).mpr hzero
    rw [hnone f e he] at hev
    cases hev
  exact Int.lt_iff_le_and_ne.mpr ⟨h.pin_nonneg f, hpin.symm⟩

/-- **No frame can be taken iff all are pinned**, and then nothing happens. -/
theorem PoolInv.acquireFrame_none_iff (h : b.PoolInv none) :
    b.acquireFrame = (none, b) ↔ b.AllPinned := by
  rcases h.acquireFrame with ⟨hacquire, hfree, hnone⟩ | ⟨f, b', hacquire, -, -, -, -, htook⟩
  · exact iff_of_true hacquire (h.allPinned hfree hnone)
  · obtain ⟨hframe, hpin⟩ := h.not_pinned htook
    refine iff_of_false (fun hnone => ?_) fun hall => hpin (hall f hframe)
    rw [hacquire] at hnone
    exact absurd (Prod.mk.inj hnone).1 (Option.some_ne_none f)

/-- Otherwise one is taken. -/
theorem PoolInv.acquireFrame_some (h : b.PoolInv none) (hpin : ¬ b.AllPinned) :
    ∃ f b', b.acquireFrame = (some f, b') := by
  rcases h.acquireFrame with ⟨-, hfree, hnone⟩ | ⟨f, b', hacquire, -⟩
  · exact absurd (h.allPinned hfree hnone) hpin
  · exact ⟨f, b', hacquire⟩

end Acquire

section Calls

variable {b : BufferPoolManager}

theorem PoolInv.newPage_none_iff (h : b.PoolInv none) : b.newPage.1 = none ↔ b.AllPinned := by
  by_cases hpin : b.AllPinned
  · have hacquire := h.acquireFrame_none_iff.mpr hpin
    simp [BufferPoolManager.newPage, hacquire, hpin]
  · obtain ⟨f, b', hacquire⟩ := h.acquireFrame_some hpin
    simp [BufferPoolManager.newPage, hacquire, hpin]

theorem PoolInv.newPage_unchanged (h : b.PoolInv none) (hnone : b.newPage.1 = none) :
    b.newPage.2 = b := by
  have hacquire := h.acquireFrame_none_iff.mpr (h.newPage_none_iff.mp hnone)
  simp only [BufferPoolManager.newPage, hacquire]

theorem PoolInv.fetchPage_none_iff (h : b.PoolInv none) (p : PageId) :
    (b.fetchPage p).1 = none ↔ b.pageTable.lookup p = none ∧ b.AllPinned := by
  cases hlookup : b.pageTable.lookup p with
  | some f => simp [BufferPoolManager.fetchPage, hlookup]
  | none =>
    by_cases hpin : b.AllPinned
    · have hacquire := h.acquireFrame_none_iff.mpr hpin
      simp [BufferPoolManager.fetchPage, hlookup, hacquire, hpin]
    · obtain ⟨f, b', hacquire⟩ := h.acquireFrame_some hpin
      simp [BufferPoolManager.fetchPage, hlookup, hacquire, hpin]

theorem PoolInv.fetchPage_unchanged (h : b.PoolInv none) {p : PageId}
    (hnone : (b.fetchPage p).1 = none) : (b.fetchPage p).2 = b := by
  obtain ⟨hlookup, hpin⟩ := (h.fetchPage_none_iff p).mp hnone
  have hacquire := h.acquireFrame_none_iff.mpr hpin
  simp only [BufferPoolManager.fetchPage, hlookup, hacquire]

theorem unpinPage_unchanged {p : PageId} {isDirty : Bool}
    (hfalse : (b.unpinPage p isDirty).1 = false) : (b.unpinPage p isDirty).2 = b := by
  unfold unpinPage at hfalse ⊢
  cases hlookup : b.pageTable.lookup p with
  | none => rfl
  | some f =>
    simp only [hlookup] at hfalse ⊢
    split at hfalse
    · rename_i hpin
      rw [if_pos hpin]
    · split at hfalse <;> cases hfalse

theorem deletePage_unchanged {p : PageId} {b' : BufferPoolManager}
    (hfalse : b.deletePage p = .ok (false, b')) : b' = b := by
  unfold deletePage at hfalse
  cases hlookup : b.pageTable.lookup p with
  | none =>
    simp only [hlookup] at hfalse
    cases hfalse
  | some f =>
    simp only [hlookup] at hfalse
    split at hfalse
    · cases hfalse
      rfl
    · cases hremove : b.replacer.remove f with
      | error e => simp only [hremove, bind, Except.bind, reduceCtorEq] at hfalse
      | ok r =>
        simp only [hremove, bind, Except.bind, pure, Except.pure] at hfalse
        cases hfalse

theorem flushPage_unchanged {p : PageId} (hfalse : (b.flushPage p).1 = false) :
    (b.flushPage p).2 = b := by
  unfold flushPage at hfalse ⊢
  cases hlookup : b.pageTable.lookup p with
  | none => rfl
  | some f =>
    simp only [hlookup] at hfalse
    cases hfalse

end Calls

end BufferPoolManager

open BufferPoolManager

/-- **When calls on the pool fail, and that they change nothing then**, in every state that
calls in range reach. -/
theorem poolRun_failures {poolSize k : Nat} {b : BufferPoolManager}
    (hrun : PoolRun InRange poolSize k b) :
    (b.newPage.1 = none ↔ ∀ f : FrameId, 0 ≤ f → f < poolSize → 0 < (b.pages f).pinCount) ∧
      (b.newPage.1 = none → b.newPage.2 = b) ∧
      ∀ p,
        ((b.fetchPage p).1 = none ↔ b.pageTable.lookup p = none ∧
          ∀ f : FrameId, 0 ≤ f → f < poolSize → 0 < (b.pages f).pinCount) ∧
        ((b.fetchPage p).1 = none → (b.fetchPage p).2 = b) ∧
        (∀ isDirty, (b.unpinPage p isDirty).1 = false → (b.unpinPage p isDirty).2 = b) ∧
        (∀ b', b.deletePage p = .ok (false, b') → b' = b) ∧
        ((b.flushPage p).1 = false → (b.flushPage p).2 = b) := by
  obtain ⟨h, rfl⟩ := hrun.inv
  have hpinned : b.AllPinned ↔ ∀ f : FrameId, 0 ≤ f → f < b.poolSize → 0 < (b.pages f).pinCount :=
    forall_congr' fun f => and_imp
  refine ⟨h.newPage_none_iff.trans hpinned, h.newPage_unchanged, fun p => ?_⟩
  rw [← hpinned]
  exact ⟨h.fetchPage_none_iff p, h.fetchPage_unchanged, fun _ => unpinPage_unchanged,
    fun _ => deletePage_unchanged, flushPage_unchanged⟩

/-- After one `NewPage` a pool of one frame is full: the next `NewPage` fails. -/
theorem poolRun_failures_full :
    (create 1 2).newPage.2.newPage.1 = none ∧
      (create 1 2).newPage.2.newPage.2 = (create 1 2).newPage.2 := by
  have hrun := @PoolRun.step InRange 1 2 _ _ .newPage .create ⟨trivial, .inr (by decide)⟩ rfl
  obtain ⟨hnone, hsame, -⟩ := poolRun_failures hrun
  have hfull : (create 1 2).newPage.2.newPage.1 = none := hnone.mpr fun f h0 hlt => by
    obtain rfl : f = 0 := Int.le_antisymm (Int.lt_add_one_iff.mp hlt) h0
    decide
  exact ⟨hfull, hsame hfull⟩

/-- A pool of one frame whose pin count has wrapped around: `NewPage` fails although the pin
count is not positive. -/
theorem poolRun_failures_negative :
    ¬ ∀ poolSize k b, PoolRun Allowed poolSize k b →
      (b.newPage.1 = none ↔ ∀ f : FrameId, 0 ≤ f → f < poolSize → 0 < (b.pages f).pinCount) := by
  intro hall
  obtain ⟨b, hrun, hcount, hacquire⟩ := poolRun_negative
  have hnew : b.newPage.1 = none := by simp only [BufferPoolManager.newPage, hacquire]
  have hpos := (hall 1 2 b hrun).mp hnew 0 (Int.le_refl 0) (by decide)
  rw [hcount] at hpos
  exact absurd hpos (by decide)

end OneBase
