import OneBase.Buffer.BufferPoolManager

/-!
# Page table, free list, replacer and frames stay in step

`PoolInv b none` is the invariant of the pool between calls. `NewPage` and a
missing `FetchPage` pass through a state in which one frame is neither free nor
mapped nor tracked; that frame is the `hole` of `PoolInv`, so the block that
takes a frame (`PoolInv.acquireFrame`) and the block that fills it
(`PoolInv.installPage`) are proved once and used by both.

- `PoolInv.step`: every call in range keeps the invariant and every pinned page, and
  none throws.
- `PoolRun.inv`: so it holds in every reachable state.
- `poolRun_invariant`: the invariant spelled out structure by structure.
- `poolRun_pinned`: out of range a pin count becomes negative.
-/

namespace OneBase

open Cpp

namespace BufferPoolManager

/-- The frame is one of the pool's. -/
def IsFrame (b : BufferPoolManager) (f : FrameId) : Prop := 0 ≤ f ∧ f < b.poolSize

/-- The frame holds a page of the page table. -/
def Mapped (b : BufferPoolManager) (f : FrameId) : Prop := ∃ p, b.pageTable.lookup p = some f

/-- The structures of the pool in step, except that the frame `hole` is loose. -/
structure PoolInv (b : BufferPoolManager) (hole : Option FrameId) : Prop where
  pageId : ∀ p f, b.pageTable.lookup p = some f → (b.pages f).pageId = p
  next_nonneg : 0 ≤ b.disk.nextPageId
  allocated : ∀ p f, b.pageTable.lookup p = some f → b.Allocated p
  mapped_isFrame : ∀ f, b.Mapped f → b.IsFrame f
  free_isFrame : ∀ f ∈ b.freeList, b.IsFrame f
  free_nodup : b.freeList.Nodup
  free_unmapped : ∀ f ∈ b.freeList, ¬ b.Mapped f
  covered : ∀ f, b.IsFrame f → some f ≠ hole → f ∈ b.freeList ∨ b.Mapped f
  hole_loose : ∀ f, hole = some f → b.IsFrame f ∧ f ∉ b.freeList ∧ ¬ b.Mapped f
  pin_nonneg : ∀ f, 0 ≤ (b.pages f).pinCount
  pinned_mapped : ∀ f, 0 < (b.pages f).pinCount → b.Mapped f
  tracked : ∀ f, (∃ e, b.replacer.entries.lookup f = some e) ↔ b.Mapped f
  evictable : ∀ f e, b.replacer.entries.lookup f = some e →
    (e.isEvictable = true ↔ (b.pages f).pinCount = 0)

/-- Where `acquireFrame` took `f` from: off the free list, or from an unpinned
resident page, which was written back if dirty. -/
def TookFrame (b : BufferPoolManager) (f : FrameId) (b' : BufferPoolManager) : Prop :=
  (f ∈ b.freeList ∧ b'.pageTable = b.pageTable ∧ b'.disk = b.disk) ∨
    ∃ p, b.pageTable.lookup p = some f ∧ (b.pages f).pinCount = 0 ∧
      b'.pageTable = b.pageTable.erase p ∧
      b'.disk = if (b.pages f).isDirty then b.disk.writePage p (b.pages f).data else b.disk

theorem poolInv_create (poolSize k : Nat) : (create poolSize k).PoolInv none := by
  have hmapped : ∀ f, ¬ (create poolSize k).Mapped f := by
    rintro f ⟨p, hp⟩
    simp [create] at hp
  have hfree : ∀ f, f ∈ (create poolSize k).freeList ↔ (create poolSize k).IsFrame f := by
    intro f
    simp only [create, List.mem_map, List.mem_range, IsFrame]
    constructor
    · rintro ⟨i, hi, rfl⟩
      exact ⟨Int.natCast_nonneg i, Int.ofNat_lt.mpr hi⟩
    · rintro ⟨h0, hlt⟩
      obtain ⟨i, rfl⟩ := Int.eq_ofNat_of_zero_le h0
      exact ⟨i, Int.ofNat_lt.mp hlt, rfl⟩
  refine ⟨fun p f h => absurd ⟨p, h⟩ (hmapped f), Int.le_refl 0,
    fun p f h => absurd ⟨p, h⟩ (hmapped f), fun f h => absurd h (hmapped f),
    fun f h => (hfree f).mp h, ?_, fun f _ => hmapped f, fun f h _ => .inl ((hfree f).mpr h),
    fun f h => (nomatch h), fun f => Int.le_refl 0, fun f h => absurd h (Int.lt_irrefl 0),
    fun f => ?_, fun f e h => ?_⟩
  · exact List.nodup_range.map fun i j hij => Int.ofNat.inj hij
  · refine ⟨?_, fun h => absurd h (hmapped f)⟩
    rintro ⟨e, he⟩
    simp [create, LRUKReplacer.create] at he
  · simp [create, LRUKReplacer.create] at h

namespace PoolInv

variable {b : BufferPoolManager} {hole : Option FrameId}

/-- Two pages are never mapped to one frame. -/
theorem injective (h : b.PoolInv hole) {p q : PageId} {f : FrameId}
    (hp : b.pageTable.lookup p = some f) (hq : b.pageTable.lookup q = some f) : p = q :=
  (h.pageId p f hp).symm.trans (h.pageId q f hq)

/-- The replacer tracks no frame `-1`, so the sentinel of `Evict` is unambiguous. -/
theorem neg_one_untracked (h : b.PoolInv hole) : (-1 : FrameId) ∉ b.replacer.entries := by
  intro hmem
  obtain ⟨e, he⟩ := Option.isSome_iff_exists.mp (AList.lookup_isSome.mpr hmem)
  exact absurd (h.mapped_isFrame (-1) ((h.tracked (-1)).mp ⟨e, he⟩)).1 (by decide)

/-- A mapped frame has a replacer entry whose flag says that it is unpinned. -/
theorem entry (h : b.PoolInv hole) {p : PageId} {f : FrameId}
    (hp : b.pageTable.lookup p = some f) :
    ∃ e, b.replacer.entries.lookup f = some e ∧
      (e.isEvictable = true ↔ (b.pages f).pinCount = 0) := by
  obtain ⟨e, he⟩ := (h.tracked f).mpr ⟨p, hp⟩
  exact ⟨e, he, h.evictable f e he⟩

/-- Who is mapped after the page of frame `f` has left the table. -/
theorem mapped_erase_iff (h : b.PoolInv hole) {p : PageId} {f : FrameId}
    (hp : b.pageTable.lookup p = some f) (g : FrameId) :
    (∃ q, (b.pageTable.erase p).lookup q = some g) ↔ b.Mapped g ∧ g ≠ f := by
  constructor
  · rintro ⟨q, hq⟩
    have hqp : q ≠ p := by
      rintro rfl
      simp at hq
    rw [AList.lookup_erase_ne hqp] at hq
    refine ⟨⟨q, hq⟩, ?_⟩
    rintro rfl
    exact hqp (h.injective hq hp)
  · rintro ⟨⟨q, hq⟩, hgf⟩
    have hqp : q ≠ p := by
      rintro rfl
      exact hgf (Option.some.inj (hq.symm.trans hp))
    exact ⟨q, by rw [AList.lookup_erase_ne hqp]; exact hq⟩

/-- A page leaves the table and the replacer, and its frame becomes the hole. -/
theorem unmap (h : b.PoolInv none) {p : PageId} {f : FrameId}
    (hp : b.pageTable.lookup p = some f) (hpin : (b.pages f).pinCount = 0)
    {b' : BufferPoolManager}
    (hpages : b'.pages = b.pages) (hnext : b'.disk.nextPageId = b.disk.nextPageId)
    (hsize : b'.poolSize = b.poolSize) (hfree : b'.freeList = b.freeList)
    (htable : b'.pageTable = b.pageTable.erase p)
    (hentries : b'.replacer.entries = b.replacer.entries.erase f) :
    b'.PoolInv (some f) := by
  have hmapped : ∀ g, b'.Mapped g ↔ b.Mapped g ∧ g ≠ f := by
    intro g
    rw [Mapped, htable]
    exact h.mapped_erase_iff hp g
  have hlookup : ∀ q g, b'.pageTable.lookup q = some g → b.pageTable.lookup q = some g := by
    intro q g hq
    rw [htable] at hq
    have hqp : q ≠ p := by
      rintro rfl
      simp at hq
    rwa [AList.lookup_erase_ne hqp] at hq
  have hframe : ∀ g, b'.IsFrame g ↔ b.IsFrame g := fun g => by rw [IsFrame, IsFrame, hsize]
  constructor
  case pageId => exact fun q g hq => hpages ▸ h.pageId q g (hlookup q g hq)
  case next_nonneg => exact hnext ▸ h.next_nonneg
  case allocated =>
    intro q g hq
    rw [Allocated, hnext]
    exact h.allocated q g (hlookup q g hq)
  case mapped_isFrame =>
    exact fun g hg => (hframe g).mpr (h.mapped_isFrame g ((hmapped g).mp hg).1)
  case free_isFrame => exact fun g hg => (hframe g).mpr (h.free_isFrame g (hfree ▸ hg))
  case free_nodup => exact hfree ▸ h.free_nodup
  case free_unmapped =>
    exact fun g hg hm => h.free_unmapped g (hfree ▸ hg) ((hmapped g).mp hm).1
  case covered =>
    intro g hg hne
    rcases h.covered g ((hframe g).mp hg) (by simp) with hgf | hgm
    · exact .inl (hfree ▸ hgf)
    · exact .inr ((hmapped g).mpr ⟨hgm, fun heq => hne (by rw [heq])⟩)
  case hole_loose =>
    rintro g ⟨⟩
    refine ⟨(hframe f).mpr (h.mapped_isFrame f ⟨p, hp⟩), fun hm => ?_, fun hm => ?_⟩
    · exact h.free_unmapped f (hfree ▸ hm) ⟨p, hp⟩
    · exact ((hmapped f).mp hm).2 rfl
  case pin_nonneg => exact fun g => hpages ▸ h.pin_nonneg g
  case pinned_mapped =>
    intro g hg
    rw [hpages] at hg
    refine (hmapped g).mpr ⟨h.pinned_mapped g hg, ?_⟩
    rintro rfl
    exact absurd hpin (Int.ne_of_gt hg)
  case tracked =>
    intro g
    rw [hmapped, hentries]
    by_cases hgf : g = f
    · subst hgf
      simp
    · rw [AList.lookup_erase_ne hgf, h.tracked]
      exact ⟨fun hm => ⟨hm, hgf⟩, fun hm => hm.1⟩
  case evictable =>
    intro g e hg
    rw [hentries] at hg
    by_cases hgf : g = f
    · subst hgf
      simp at hg
    · rw [AList.lookup_erase_ne hgf] at hg
      exact hpages ▸ h.evictable g e hg

/-- **Taking a frame.** Either no frame is free and none is evictable, and
nothing changes; or the result is a frame that was free or mapped and unpinned,
and it is the hole of the new state. -/
theorem acquireFrame (h : b.PoolInv none) :
    (b.acquireFrame = (none, b) ∧ b.freeList = [] ∧
        ∀ f e, b.replacer.entries.lookup f = some e → e.isEvictable = false) ∨
      ∃ f b', b.acquireFrame = (some f, b') ∧ b'.PoolInv (some f) ∧ b'.pages = b.pages ∧
        b'.disk.nextPageId = b.disk.nextPageId ∧ b'.poolSize = b.poolSize ∧
        b.TookFrame f b' := by
  unfold BufferPoolManager.acquireFrame
  cases hlist : b.freeList with
  | cons f rest =>
    refine .inr ⟨f, _, rfl, ?_, rfl, rfl, rfl, .inl ⟨hlist ▸ List.mem_cons_self, rfl, rfl⟩⟩
    have hnodup : f ∉ rest ∧ rest.Nodup := List.nodup_cons.mp (hlist ▸ h.free_nodup)
    have hmem : ∀ g ∈ rest, g ∈ b.freeList := fun g hg => hlist ▸ List.mem_cons_of_mem _ hg
    have hf : f ∈ b.freeList := hlist ▸ List.mem_cons_self
    refine ⟨h.pageId, h.next_nonneg, h.allocated, h.mapped_isFrame,
      fun g hg => h.free_isFrame g (hmem g hg), hnodup.2,
      fun g hg => h.free_unmapped g (hmem g hg), fun g hg hne => ?_, ?_, h.pin_nonneg,
      h.pinned_mapped, h.tracked, h.evictable⟩
    · rcases h.covered g hg (by simp) with hgf | hgm
      · rw [hlist] at hgf
        rcases List.mem_cons.mp hgf with rfl | hgf
        · exact absurd rfl hne
        · exact .inl hgf
      · exact .inr hgm
    · rintro g ⟨⟩
      exact ⟨h.free_isFrame f hf, hnodup.1, h.free_unmapped f hf⟩
  | nil =>
    rcases b.replacer.evict_spec h.neg_one_untracked with ⟨hev, hall⟩ | ⟨f, e, he, hev, hres⟩
    · refine .inl ⟨?_, rfl, hall⟩
      simp only [hev]
    · have hpin := (h.evictable f e he).mp hev
      obtain ⟨p, hp⟩ := (h.tracked f).mp ⟨e, he⟩
      have hpage := h.pageId p f hp
      have hnext : (if (b.pages f).isDirty then
          b.disk.writePage (b.pages f).pageId (b.pages f).data else b.disk).nextPageId =
            b.disk.nextPageId := by
        split <;> rfl
      simp only [hres]
      refine .inr ⟨f, _, rfl, ?_, rfl, hnext, rfl, .inr ⟨p, hp, hpin, ?_, ?_⟩⟩
      · exact h.unmap hp hpin rfl hnext rfl hlist.symm (by rw [hpage]) rfl
      · rw [hpage]
      · rw [hpage]

/-- **Filling the hole** with a page that is not resident. -/
theorem installPage {f : FrameId} (h : b.PoolInv (some f)) {p : PageId}
    (hp : b.pageTable.lookup p = none) (halloc : b.Allocated p) (data : PageData) :
    (b.installPage f p data).PoolInv none := by
  obtain ⟨hframe, hnotfree, hunmapped⟩ := h.hole_loose f rfl
  -- the table gains one entry, for the hole
  have hlookup : ∀ q g, (b.installPage f p data).pageTable.lookup q = some g ↔
      (q = p ∧ g = f) ∨ (q ≠ p ∧ b.pageTable.lookup q = some g) := by
    intro q g
    simp only [BufferPoolManager.installPage]
    by_cases hqp : q = p
    · subst hqp
      simp [eq_comm]
    · simp [hqp]
  have hmapped : ∀ g, (b.installPage f p data).Mapped g ↔ g = f ∨ b.Mapped g := by
    intro g
    constructor
    · rintro ⟨q, hq⟩
      rcases (hlookup q g).mp hq with ⟨-, hg⟩ | ⟨-, hq⟩
      · exact .inl hg
      · exact .inr ⟨q, hq⟩
    · rintro (rfl | ⟨q, hq⟩)
      · exact ⟨p, (hlookup p g).mpr (.inl ⟨rfl, rfl⟩)⟩
      · refine ⟨q, (hlookup q g).mpr (.inr ⟨?_, hq⟩)⟩
        rintro rfl
        rw [hp] at hq
        cases hq
  have hne : ∀ g, b.Mapped g → g ≠ f := by
    rintro g hg rfl
    exact hunmapped hg
  constructor
  case pageId =>
    intro q g hq
    rcases (hlookup q g).mp hq with ⟨rfl, rfl⟩ | ⟨-, hq⟩
    · simp [BufferPoolManager.installPage]
    · simp [BufferPoolManager.installPage, Function.update_of_ne (hne g ⟨q, hq⟩),
        h.pageId q g hq]
  case next_nonneg => exact h.next_nonneg
  case allocated =>
    intro q g hq
    rcases (hlookup q g).mp hq with ⟨rfl, -⟩ | ⟨-, hq⟩
    · exact halloc
    · exact h.allocated q g hq
  case mapped_isFrame =>
    intro g hg
    rcases (hmapped g).mp hg with rfl | hg
    · exact hframe
    · exact h.mapped_isFrame g hg
  case free_isFrame => exact h.free_isFrame
  case free_nodup => exact h.free_nodup
  case free_unmapped =>
    intro g hg hm
    rcases (hmapped g).mp hm with rfl | hm
    · exact hnotfree hg
    · exact h.free_unmapped g hg hm
  case covered =>
    intro g hg _
    by_cases hgf : g = f
    · exact .inr ((hmapped g).mpr (.inl hgf))
    · rcases h.covered g hg (fun heq => hgf (Option.some.inj heq)) with hfree | hm
      · exact .inl hfree
      · exact .inr ((hmapped g).mpr (.inr hm))
  case hole_loose => exact fun g hg => (nomatch hg)
  case pin_nonneg =>
    intro g
    by_cases hgf : g = f
    · subst hgf
      simp [BufferPoolManager.installPage]
    · simp only [BufferPoolManager.installPage, Function.update_of_ne hgf]
      exact h.pin_nonneg g
  case pinned_mapped =>
    intro g hg
    by_cases hgf : g = f
    · exact (hmapped g).mpr (.inl hgf)
    · simp only [BufferPoolManager.installPage, Function.update_of_ne hgf] at hg
      exact (hmapped g).mpr (.inr (h.pinned_mapped g hg))
  case tracked =>
    intro g
    rw [hmapped]
    by_cases hgf : g = f
    · subst hgf
      obtain ⟨e, he, -⟩ := b.replacer.lookup_pin_self g
      exact ⟨fun _ => .inl rfl, fun _ => ⟨e, he⟩⟩
    · have hsame := b.replacer.lookup_pin_ne hgf
      simp only [BufferPoolManager.installPage, hsame, hgf, false_or]
      exact h.tracked g
  case evictable =>
    intro g e hg
    by_cases hgf : g = f
    · subst hgf
      obtain ⟨e', he', hev⟩ := b.replacer.lookup_pin_self g
      obtain rfl : e' = e := Option.some.inj (he'.symm.trans hg)
      simp [BufferPoolManager.installPage, hev]
    · simp only [BufferPoolManager.installPage, b.replacer.lookup_pin_ne hgf] at hg
      simp only [BufferPoolManager.installPage, Function.update_of_ne hgf]
      exact h.evictable g e hg

/-- A call that leaves the table and the free list alone keeps the invariant if
frames keep their page ids, pin counts stay non-negative and the replacer still
tracks the same frames, with flags that match the new pin counts. -/
theorem update (h : b.PoolInv hole) {b' : BufferPoolManager}
    (htable : b'.pageTable = b.pageTable) (hfree : b'.freeList = b.freeList)
    (hsize : b'.poolSize = b.poolSize) (hnext : b'.disk.nextPageId = b.disk.nextPageId)
    (hid : ∀ g, (b'.pages g).pageId = (b.pages g).pageId)
    (hpin : ∀ g, 0 ≤ (b'.pages g).pinCount)
    (hpinned : ∀ g, 0 < (b'.pages g).pinCount → b.Mapped g)
    (htracked : ∀ g, (∃ e, b'.replacer.entries.lookup g = some e) ↔
      ∃ e, b.replacer.entries.lookup g = some e)
    (hev : ∀ g e, b'.replacer.entries.lookup g = some e →
      (e.isEvictable = true ↔ (b'.pages g).pinCount = 0)) :
    b'.PoolInv hole := by
  have hmapped : ∀ g, b'.Mapped g ↔ b.Mapped g := fun g => by rw [Mapped, Mapped, htable]
  have hframe : ∀ g, b'.IsFrame g ↔ b.IsFrame g := fun g => by rw [IsFrame, IsFrame, hsize]
  constructor
  case pageId => exact fun p f hp => (hid f).trans (h.pageId p f (htable ▸ hp))
  case next_nonneg => exact hnext ▸ h.next_nonneg
  case allocated =>
    intro p f hp
    rw [Allocated, hnext]
    exact h.allocated p f (htable ▸ hp)
  case mapped_isFrame =>
    exact fun g hg => (hframe g).mpr (h.mapped_isFrame g ((hmapped g).mp hg))
  case free_isFrame => exact fun g hg => (hframe g).mpr (h.free_isFrame g (hfree ▸ hg))
  case free_nodup => exact hfree ▸ h.free_nodup
  case free_unmapped => exact fun g hg hm => h.free_unmapped g (hfree ▸ hg) ((hmapped g).mp hm)
  case covered =>
    intro g hg hne
    rw [hfree, hmapped]
    exact h.covered g ((hframe g).mp hg) hne
  case hole_loose =>
    intro g hg
    rw [hframe, hfree, hmapped]
    exact h.hole_loose g hg
  case pin_nonneg => exact hpin
  case pinned_mapped => exact fun g hg => (hmapped g).mpr (hpinned g hg)
  case tracked => exact fun g => (htracked g).trans ((h.tracked g).trans (hmapped g).symm)
  case evictable => exact hev

/-- A call that changes neither table, free list, replacer, page ids nor pin
counts keeps the invariant. -/
theorem congr (h : b.PoolInv hole) {b' : BufferPoolManager}
    (htable : b'.pageTable = b.pageTable) (hfree : b'.freeList = b.freeList)
    (hsize : b'.poolSize = b.poolSize) (hnext : b'.disk.nextPageId = b.disk.nextPageId)
    (hrep : b'.replacer = b.replacer)
    (hpage : ∀ g, (b'.pages g).pageId = (b.pages g).pageId ∧
      (b'.pages g).pinCount = (b.pages g).pinCount) :
    b'.PoolInv hole := by
  refine h.update htable hfree hsize hnext (fun g => (hpage g).1) (fun g => ?_)
    (fun g hg => ?_) (fun g => by rw [hrep]) (fun g e he => ?_)
  · exact (hpage g).2 ▸ h.pin_nonneg g
  · exact h.pinned_mapped g ((hpage g).2 ▸ hg)
  · rw [(hpage g).2]
    exact h.evictable g e (hrep ▸ he)

/-! ## The six operations -/

/-- The page counter after a `NewPage` that got a frame. -/
theorem newPage_counter (h : b.PoolInv none) {f : FrameId} {b₁ : BufferPoolManager}
    (hsome : b.acquireFrame = (some f, b₁)) (hnext : b₁.disk.nextPageId = b.disk.nextPageId)
    (hfit : b.CountersFit .newPage) :
    int32 (b₁.disk.nextPageId + 1) = b₁.disk.nextPageId + 1 := by
  rw [hnext]
  refine int32_succ h.next_nonneg (hfit.resolve_left fun hnone => ?_)
  simp [BufferPoolManager.newPage, hsome] at hnone

theorem newPage (h : b.PoolInv none) (hfit : b.CountersFit .newPage) :
    b.newPage.2.PoolInv none := by
  unfold BufferPoolManager.newPage
  rcases h.acquireFrame with ⟨hnone, -, -⟩ | ⟨f, b₁, hsome, hb₁, -, hnext, -, -⟩
  · rw [hnone]
    exact h
  · rw [hsome]
    dsimp only
    rw [h.newPage_counter hsome hnext hfit]
    have hfresh : b₁.pageTable.lookup b₁.disk.nextPageId = none := by
      cases hl : b₁.pageTable.lookup b₁.disk.nextPageId with
      | none => rfl
      | some g => exact absurd (hb₁.allocated _ g hl).2 (Int.lt_irrefl _)
    refine installPage (b := { b₁ with disk :=
      { b₁.disk with nextPageId := b₁.disk.nextPageId + 1 } }) ?_ hfresh ?_ PageData.zero
    · -- only the page counter moved
      refine ⟨hb₁.pageId, Int.le_trans hb₁.next_nonneg (Int.le_of_lt (Int.lt_succ _)),
        fun p g hp => ⟨(hb₁.allocated p g hp).1, Int.lt_trans (hb₁.allocated p g hp).2
          (Int.lt_succ _)⟩,
        hb₁.mapped_isFrame, hb₁.free_isFrame, hb₁.free_nodup, hb₁.free_unmapped, hb₁.covered,
        hb₁.hole_loose, hb₁.pin_nonneg, hb₁.pinned_mapped, hb₁.tracked, hb₁.evictable⟩
    · exact ⟨hb₁.next_nonneg, Int.lt_succ _⟩

/-- A missing page stays missing while a frame is taken for it. -/
theorem lookup_none_of_acquire {p : PageId} {b' : BufferPoolManager} {f : FrameId}
    (hp : b.pageTable.lookup p = none) (htook : b.TookFrame f b') :
    b'.pageTable.lookup p = none := by
  rcases htook with ⟨-, htable, -⟩ | ⟨q, hq, -, htable, -⟩
  · rw [htable]
    exact hp
  · have hpq : p ≠ q := by
      rintro rfl
      rw [hp] at hq
      cases hq
    rw [htable, AList.lookup_erase_ne hpq]
    exact hp

/-- A resident frame gets a new pin count (and perhaps new contents), with a
replacer entry that follows the count. -/
theorem setPin (h : b.PoolInv hole) {p : PageId} {f : FrameId}
    (hp : b.pageTable.lookup p = some f) {page : Page} {r : LRUKReplacer}
    (hid : page.pageId = (b.pages f).pageId) (hnonneg : 0 ≤ page.pinCount)
    (hentry : ∃ e, r.entries.lookup f = some e ∧ (e.isEvictable = true ↔ page.pinCount = 0))
    (hother : ∀ g, g ≠ f → r.entries.lookup g = b.replacer.entries.lookup g) :
    PoolInv { b with pages := Function.update b.pages f page, replacer := r } hole := by
  obtain ⟨e, he, hev⟩ := hentry
  obtain ⟨e₀, he₀, -⟩ := h.entry hp
  refine h.update rfl rfl rfl rfl (fun g => ?_) (fun g => ?_) (fun g hg => ?_) (fun g => ?_)
    (fun g e' he' => ?_) <;> by_cases hgf : g = f
  · subst hgf
    simpa using hid
  · simp [hgf]
  · subst hgf
    simpa using hnonneg
  · simpa [hgf] using h.pin_nonneg g
  · exact hgf ▸ ⟨p, hp⟩
  · simp only [Function.update_of_ne hgf] at hg
    exact h.pinned_mapped g hg
  · subst hgf
    exact ⟨fun _ => ⟨e₀, he₀⟩, fun _ => ⟨e, he⟩⟩
  · simp only [hother g hgf]
  · subst hgf
    obtain rfl : e = e' := Option.some.inj (he.symm.trans he')
    simpa using hev
  · simp only [hother g hgf] at he'
    simpa [hgf] using h.evictable g e' he'

theorem fetchPage (h : b.PoolInv none) {p : PageId} (hok : b.InRange (.fetchPage p)) :
    (b.fetchPage p).2.PoolInv none := by
  obtain ⟨halloc, hfit⟩ := hok
  unfold BufferPoolManager.fetchPage
  cases hp : b.pageTable.lookup p with
  | some f =>
    have hpin := h.pin_nonneg f
    have hcount : int32 ((b.pages f).pinCount + 1) = (b.pages f).pinCount + 1 :=
      int32_succ hpin (hfit f hp)
    obtain ⟨e, he, hev⟩ := b.replacer.lookup_pin_self f
    refine h.setPin hp rfl (by dsimp only; omega) ⟨e, he, ?_⟩
      (fun g hg => b.replacer.lookup_pin_ne hg)
    rw [hev]
    dsimp only
    rw [hcount]
    simp only [Bool.false_eq_true, false_iff]
    omega
  | none =>
    rcases h.acquireFrame with ⟨hnone, -, -⟩ | ⟨f, b₁, hsome, hb₁, -, hnext, -, htook⟩
    · rw [hnone]
      exact h
    · rw [hsome]
      refine hb₁.installPage (lookup_none_of_acquire hp htook) ?_ _
      rw [Allocated, hnext]
      exact halloc

theorem unpinPage (h : b.PoolInv none) (p : PageId) (isDirty : Bool) :
    (b.unpinPage p isDirty).2.PoolInv none := by
  unfold BufferPoolManager.unpinPage
  cases hp : b.pageTable.lookup p with
  | none => exact h
  | some f =>
    by_cases hpin : (b.pages f).pinCount ≤ 0
    · simp only [hpin, if_true]
      exact h
    · obtain ⟨e, he, hev⟩ := h.entry hp
      simp only [hpin, if_false, modifyPage, Function.update_self]
      by_cases hzero : (b.pages f).pinCount - 1 = 0
      · simp only [hzero, if_true]
        refine h.setPin hp rfl (Int.le_refl 0) ⟨{ e with isEvictable := true }, ?_, by simp⟩
          (fun g hg => b.replacer.lookup_setEvictable_ne true hg)
        rw [LRUKReplacer.lookup_setEvictable_self, he]
        rfl
      · simp only [hzero, if_false]
        refine h.setPin hp rfl (by dsimp only; omega) ⟨e, he, ?_⟩ (fun _ _ => rfl)
        rw [hev]
        dsimp only
        omega

/-- Deleting a page never throws: the replacer entry of an unpinned resident
frame is evictable. -/
theorem deletePage (h : b.PoolInv none) (p : PageId) :
    ∃ r b', b.deletePage p = .ok (r, b') ∧ b'.PoolInv none ∧ b'.poolSize = b.poolSize ∧
      ∀ q g, b.pageTable.lookup q = some g → 0 < (b.pages g).pinCount →
        b'.pageTable.lookup q = some g := by
  unfold BufferPoolManager.deletePage
  cases hp : b.pageTable.lookup p with
  | none => exact ⟨true, b, rfl, h, rfl, fun _ _ hq _ => hq⟩
  | some f =>
    by_cases hpin : (b.pages f).pinCount > 0
    · exact ⟨false, b, by simp only [hpin, if_true], h, rfl, fun _ _ hq _ => hq⟩
    · obtain ⟨e, he, hev⟩ := h.entry hp
      have hzero : (b.pages f).pinCount = 0 := by
        have := h.pin_nonneg f
        omega
      simp only [hpin, if_false, b.replacer.remove_of_evictable he (hev.mpr hzero)]
      refine ⟨true, _, rfl, ?_, rfl, fun q g hq hg => ?_⟩
      · -- first the frame comes loose, then it joins the free list
        have hloose : PoolInv { b with
            pageTable := b.pageTable.erase p
            replacer := { b.replacer with
              currSize := b.replacer.currSize - 1, entries := b.replacer.entries.erase f } }
            (some f) :=
          h.unmap hp hzero rfl rfl rfl rfl rfl rfl
        obtain ⟨hframe, hnotfree, hunmapped⟩ := hloose.hole_loose f rfl
        have hne : ∀ g, (∃ q, (b.pageTable.erase p).lookup q = some g) → g ≠ f := by
          rintro g hg rfl
          exact hunmapped hg
        constructor
        case pageId =>
          intro q g hq
          simp only [modifyPage, Function.update_of_ne (hne g ⟨q, hq⟩)]
          exact hloose.pageId q g hq
        case next_nonneg => exact hloose.next_nonneg
        case allocated => exact hloose.allocated
        case mapped_isFrame => exact hloose.mapped_isFrame
        case free_isFrame =>
          intro g hg
          rcases List.mem_append.mp hg with hg | hg
          · exact hloose.free_isFrame g hg
          · exact List.mem_singleton.mp hg ▸ hframe
        case free_nodup =>
          refine List.nodup_append.mpr ⟨hloose.free_nodup, List.nodup_singleton f, ?_⟩
          rintro g hg g' hg' rfl
          exact hnotfree (List.mem_singleton.mp hg' ▸ hg)
        case free_unmapped =>
          intro g hg hm
          rcases List.mem_append.mp hg with hg | hg
          · exact hloose.free_unmapped g hg hm
          · exact hne g hm (List.mem_singleton.mp hg)
        case covered =>
          intro g hg _
          by_cases hgf : g = f
          · exact .inl (List.mem_append_right _ (List.mem_singleton.mpr hgf))
          · rcases hloose.covered g hg (fun heq => hgf (Option.some.inj heq)) with hf | hm
            · exact .inl (List.mem_append_left _ hf)
            · exact .inr hm
        case hole_loose => exact fun g hg => (nomatch hg)
        case pin_nonneg =>
          intro g
          by_cases hgf : g = f
          · subst hgf
            simpa [modifyPage] using h.pin_nonneg g
          · simpa [modifyPage, hgf] using h.pin_nonneg g
        case pinned_mapped =>
          intro g hg
          have hgf : g ≠ f := by
            rintro rfl
            simp only [modifyPage, Function.update_self] at hg
            exact hpin hg
          simp only [modifyPage, Function.update_of_ne hgf] at hg
          exact hloose.pinned_mapped g hg
        case tracked => exact hloose.tracked
        case evictable =>
          intro g e' he'
          have hgf : g ≠ f := hne g ((hloose.tracked g).mp ⟨e', he'⟩)
          simp only [modifyPage, Function.update_of_ne hgf]
          exact hloose.evictable g e' he'
      · have hqp : q ≠ p := by
          rintro rfl
          obtain rfl : f = g := Option.some.inj (hp.symm.trans hq)
          exact hpin hg
        show (b.pageTable.erase p).lookup q = some g
        rw [AList.lookup_erase_ne hqp]
        exact hq

theorem flushPage (h : b.PoolInv none) (p : PageId) : (b.flushPage p).2.PoolInv none := by
  unfold BufferPoolManager.flushPage
  cases b.pageTable.lookup p with
  | none => exact h
  | some f =>
    refine h.congr rfl rfl rfl rfl rfl (fun g => ?_)
    by_cases hgf : g = f
    · subst hgf
      simp [modifyPage]
    · simp [modifyPage, hgf]

/-- What one iteration of `FlushAllPages` leaves alone. -/
theorem flushEntry (h : b.PoolInv none) (e : Sigma fun _ : PageId => FrameId) :
    (b.flushEntry e).PoolInv none := by
  refine h.congr rfl rfl rfl rfl rfl (fun g => ?_)
  by_cases hgf : g = e.2
  · rw [hgf]
    simp [BufferPoolManager.flushEntry, modifyPage]
  · simp [BufferPoolManager.flushEntry, modifyPage, hgf]

theorem flushEntries (h : b.PoolInv none) (l : List (Sigma fun _ : PageId => FrameId)) :
    (l.foldl BufferPoolManager.flushEntry b).PoolInv none := by
  induction l generalizing b with
  | nil => exact h
  | cons e l ih => exact ih (h.flushEntry e)

end PoolInv

theorem flushEntries_frame (l : List (Sigma fun _ : PageId => FrameId))
    (b : BufferPoolManager) :
    (l.foldl flushEntry b).pageTable = b.pageTable ∧
      (l.foldl flushEntry b).poolSize = b.poolSize := by
  induction l generalizing b with
  | nil => exact ⟨rfl, rfl⟩
  | cons e l ih => exact ih (b.flushEntry e)

/-- Taking a frame and mapping a page that was not resident to it leaves every
pinned page where it is. -/
theorem lookup_insert_of_tookFrame {b b' : BufferPoolManager}
    {f g : FrameId} {p q : PageId} (htook : b.TookFrame f b') (hpq : p ≠ q)
    (hp : b.pageTable.lookup p = some g) (hpin : 0 < (b.pages g).pinCount) :
    (b'.pageTable.insert q f).lookup p = some g := by
  rw [AList.lookup_insert_ne hpq]
  rcases htook with ⟨-, htable, -⟩ | ⟨p', hp', hzero, htable, -⟩
  · rw [htable]
    exact hp
  · have hpp' : p ≠ p' := by
      rintro rfl
      obtain rfl : f = g := Option.some.inj (hp'.symm.trans hp)
      exact absurd hzero (Int.ne_of_gt hpin)
    rw [htable, AList.lookup_erase_ne hpp']
    exact hp

/-- Every other page that is resident then was resident before, in another frame. -/
theorem lookup_of_insert_tookFrame {b b' : BufferPoolManager} {f g : FrameId} {p q : PageId}
    (htook : b.TookFrame f b') (hb' : b'.PoolInv (some f)) (hqp : q ≠ p)
    (hq : (b'.pageTable.insert p f).lookup q = some g) :
    b.pageTable.lookup q = some g ∧ g ≠ f := by
  rw [AList.lookup_insert_ne hqp] at hq
  constructor
  · rcases htook with ⟨-, htable, -⟩ | ⟨q', -, -, htable, -⟩
    · rwa [htable] at hq
    · rw [htable] at hq
      have hqq' : q ≠ q' := by
        rintro rfl
        simp at hq
      rwa [AList.lookup_erase_ne hqq'] at hq
  · rintro rfl
    exact (hb'.hole_loose g rfl).2.2 ⟨q, hq⟩

/-- Whatever the replacer does, `UnpinPage` of a pinned page changes one frame. -/
theorem unpinPage_eq (b : BufferPoolManager) {p : PageId} {f : FrameId}
    (hp : b.pageTable.lookup p = some f) (hpos : 0 < (b.pages f).pinCount) (isDirty : Bool) :
    ∃ r, (b.unpinPage p isDirty).2 = { b with
      pages := Function.update b.pages f { b.pages f with
        isDirty := (b.pages f).isDirty || isDirty
        pinCount := (b.pages f).pinCount - 1 }
      replacer := r } := by
  unfold BufferPoolManager.unpinPage
  simp only [hp, Int.not_le.mpr hpos, if_false, modifyPage, Function.update_self]
  by_cases hzero : (b.pages f).pinCount - 1 = 0
  · exact ⟨_, by rw [if_pos hzero]⟩
  · exact ⟨_, by rw [if_neg hzero]⟩

/-- **One call.** A call in range returns normally, keeps the invariant and the
pool's size, and keeps every pinned page where it is. -/
theorem PoolInv.step {b : BufferPoolManager} (h : b.PoolInv none) {op : PoolOp}
    (hop : b.InRange op) :
    ∃ b', b.step op = .ok b' ∧ b'.PoolInv none ∧ b'.poolSize = b.poolSize ∧
      ∀ p f, b.pageTable.lookup p = some f → 0 < (b.pages f).pinCount →
        b'.pageTable.lookup p = some f := by
  cases op with
  | newPage =>
    refine ⟨_, rfl, h.newPage hop.2, ?_⟩
    unfold BufferPoolManager.newPage
    rcases h.acquireFrame with ⟨hnone, -, -⟩ | ⟨f, b₁, hsome, -, -, hnext, hsize, htook⟩
    · rw [hnone]
      exact ⟨rfl, fun p g hp _ => hp⟩
    · rw [hsome]
      refine ⟨hsize, fun p g hp hpin => ?_⟩
      have hfresh : p ≠ b₁.disk.nextPageId := by
        rintro rfl
        exact absurd (h.allocated _ g hp).2 (hnext ▸ Int.lt_irrefl _)
      have hkeep := lookup_insert_of_tookFrame htook hfresh hp hpin
      exact hkeep
  | fetchPage q =>
    refine ⟨_, rfl, h.fetchPage hop, ?_⟩
    unfold BufferPoolManager.fetchPage
    cases hq : b.pageTable.lookup q with
    | some g => exact ⟨rfl, fun p f hp _ => hp⟩
    | none =>
      rcases h.acquireFrame with ⟨hnone, -, -⟩ | ⟨f, b₁, hsome, -, -, -, hsize, htook⟩
      · rw [hnone]
        exact ⟨rfl, fun p g hp _ => hp⟩
      · rw [hsome]
        refine ⟨hsize, fun p g hp hpin => lookup_insert_of_tookFrame htook ?_ hp hpin⟩
        rintro rfl
        rw [hq] at hp
        cases hp
  | unpinPage q isDirty =>
    refine ⟨_, rfl, h.unpinPage q isDirty, ?_⟩
    rw [BufferPoolManager.unpinPage]
    split
    · exact ⟨rfl, fun p f hp _ => hp⟩
    · split
      · exact ⟨rfl, fun p f hp _ => hp⟩
      · dsimp only
        split <;> exact ⟨rfl, fun p f hp _ => hp⟩
  | deletePage q =>
    obtain ⟨r, b', hdel, hb', hsize, hkeep⟩ := h.deletePage q
    exact ⟨b', by simp [BufferPoolManager.step, hdel], hb', hsize, hkeep⟩
  | flushPage q =>
    refine ⟨_, rfl, h.flushPage q, ?_⟩
    unfold BufferPoolManager.flushPage
    cases b.pageTable.lookup q <;> exact ⟨rfl, fun p f hp _ => hp⟩
  | flushAllPages =>
    obtain ⟨htable, hsize⟩ := flushEntries_frame b.pageTable.entries b
    refine ⟨_, rfl, h.flushEntries _, hsize, fun p f hp _ => ?_⟩
    rw [BufferPoolManager.flushAllPages, htable]
    exact hp

end BufferPoolManager

/-! ## Every reachable state -/

open BufferPoolManager

/-- The invariant, and the size of the pool, along every run in range. -/
theorem PoolRun.inv {poolSize k : Nat} {b : BufferPoolManager} (h : PoolRun InRange poolSize k b) :
    b.PoolInv none ∧ b.poolSize = poolSize := by
  induction h with
  | create => exact ⟨poolInv_create poolSize k, rfl⟩
  | step _ hop hstep ih =>
    obtain ⟨b', hb', hinv, hsize, -⟩ := ih.1.step hop
    obtain rfl := Except.ok.inj (hb'.symm.trans hstep)
    exact ⟨hinv, hsize.trans ih.2⟩

/-- **The pool's structures agree in every reachable state.** As long as no call counts page
ids or pins past `2^31 - 1`, the page table is
injective and matches the frames' page ids; each frame is either exactly once on
the free list or the target of exactly one table entry; pin counts are
non-negative; the replacer tracks exactly the mapped frames, evictable iff
unpinned. So every further call in range returns normally and leaves pinned pages mapped
to their frames. -/
theorem poolRun_invariant {poolSize k : Nat} {b : BufferPoolManager}
    (hrun : PoolRun InRange poolSize k b) :
    (∀ p q f, b.pageTable.lookup p = some f → b.pageTable.lookup q = some f → p = q) ∧
    (∀ p f, b.pageTable.lookup p = some f → (b.pages f).pageId = p) ∧
    (∀ f : FrameId, 0 ≤ f → f < poolSize →
      (b.freeList.count f = 1 ∧ ∀ p, b.pageTable.lookup p ≠ some f) ∨
        (b.freeList.count f = 0 ∧ ∃! p, b.pageTable.lookup p = some f)) ∧
    (∀ f, 0 ≤ (b.pages f).pinCount) ∧
    (∀ f, f ∈ b.replacer.entries ↔ ∃ p, b.pageTable.lookup p = some f) ∧
    (∀ f e, b.replacer.entries.lookup f = some e →
      (e.isEvictable = true ↔ (b.pages f).pinCount = 0)) ∧
    (∀ op, b.InRange op → ∃ b', b.step op = .ok b' ∧
      ∀ f, 0 < (b.pages f).pinCount →
        (b'.pages f).pageId = (b.pages f).pageId ∧
        b'.pageTable.lookup (b.pages f).pageId = some f) := by
  obtain ⟨h, hsize⟩ := hrun.inv
  refine ⟨fun p q f => h.injective, h.pageId, fun f h0 hlt => ?_, h.pin_nonneg, fun f => ?_,
    h.evictable, fun op hop => ?_⟩
  · have hframe : b.IsFrame f := ⟨h0, hsize ▸ hlt⟩
    rcases h.covered f hframe (by simp) with hfree | ⟨p, hp⟩
    · exact .inl ⟨List.count_eq_one_of_mem h.free_nodup hfree,
        fun p hp => h.free_unmapped f hfree ⟨p, hp⟩⟩
    · refine .inr ⟨List.count_eq_zero.mpr fun hfree => h.free_unmapped f hfree ⟨p, hp⟩,
        p, hp, fun q hq => h.injective hq hp⟩
  · rw [← AList.lookup_isSome, Option.isSome_iff_exists]
    exact h.tracked f
  · obtain ⟨b', hb', hinv, -, hkeep⟩ := h.step hop
    refine ⟨b', hb', fun f hpin => ?_⟩
    obtain ⟨p, hp⟩ := h.pinned_mapped f hpin
    have hp' := hkeep p f hp hpin
    rw [h.pageId p f hp]
    exact ⟨hinv.pageId p f hp', hp'⟩

/-- In a pool of one frame, after one `NewPage`, frame 0 is tracked because it
is mapped. -/
theorem poolRun_invariant_newPage :
    (0 : FrameId) ∈ (create 1 2).newPage.2.replacer.entries ↔
      ∃ p, (create 1 2).newPage.2.pageTable.lookup p = some 0 :=
  (poolRun_invariant (@PoolRun.step InRange 1 2 _ _ .newPage .create
    ⟨trivial, .inr (by decide)⟩ rfl)).2.2.2.2.1 0

/-! ## Runs that leave the range -/

section Overflow

variable {b : BufferPoolManager} {p : PageId} {f : FrameId}

/-- The pool after `n` calls of `FetchPage` for one page. -/
def BufferPoolManager.fetchOften (b : BufferPoolManager) (p : PageId) : Nat → BufferPoolManager
  | 0 => b
  | n + 1 => ((b.fetchOften p n).fetchPage p).2

/-- The pool after a resident page was fetched, and only fetched: its pins were counted in an
`int` from `c` on, and its frame is not evictable. -/
structure BufferPoolManager.Fetched (b : BufferPoolManager) (f : FrameId) (c : Int)
    (b' : BufferPoolManager) : Prop where
  table : b'.pageTable = b.pageTable
  free : b'.freeList = b.freeList
  disk : b'.disk = b.disk
  page : b'.pages f = { b.pages f with pinCount := int32 c }
  entry : ∃ e, b'.replacer.entries.lookup f = some e ∧ e.isEvictable = false
  other : ∀ g, g ≠ f → b'.replacer.entries.lookup g = b.replacer.entries.lookup g

/-- One more `FetchPage` of the page. -/
theorem BufferPoolManager.Fetched.fetchPage {b' : BufferPoolManager} {c : Int}
    (h : b.Fetched f c b') (hp : b.pageTable.lookup p = some f) :
    b.Fetched f (c + 1) (b'.fetchPage p).2 := by
  have hp' : b'.pageTable.lookup p = some f := by rw [h.table, hp]
  have hfetch : (b'.fetchPage p).2 =
      { b'.modifyPage f fun page => { page with pinCount := int32 (page.pinCount + 1) } with
        replacer := (b'.replacer.recordAccess f).setEvictable f false } := by
    simp only [BufferPoolManager.fetchPage, hp']
    rfl
  rw [hfetch]
  refine ⟨h.table, h.free, h.disk, ?_, b'.replacer.lookup_pin_self f, fun g hg => ?_⟩
  · simp only [modifyPage, Function.update_self, h.page, int32_add]
  · rw [← h.other g hg]
    exact b'.replacer.lookup_pin_ne hg

theorem BufferPoolManager.fetchOften_fetched (hp : b.pageTable.lookup p = some f) {c : Int}
    (hinit : b.Fetched f c b) (n : Nat) : b.Fetched f (c + n) (b.fetchOften p n) := by
  induction n with
  | zero =>
    rw [Int.natCast_zero, Int.add_zero]
    exact hinit
  | succ n ih =>
    have hstep := ih.fetchPage hp
    rw [Int.add_assoc] at hstep
    exact hstep

/-- If this is the only page in the pool, no frame can be taken. -/
theorem BufferPoolManager.Fetched.acquireFrame_none {b' : BufferPoolManager} {c : Int}
    (h : b.Fetched f c b') (hf : f ≠ -1) (hfree : b.freeList = [])
    (honly : ∀ g, g ≠ f → b.replacer.entries.lookup g = none) :
    b'.acquireFrame = (none, b') := by
  have hids : (-1 : FrameId) ∉ b'.replacer.entries := by
    rw [← AList.lookup_eq_none, h.other (-1) hf.symm]
    exact honly (-1) hf.symm
  have hnone : b'.replacer.evict = (none, b'.replacer) := by
    rcases b'.replacer.evict_spec hids with ⟨hevict, -⟩ | ⟨g, e, he, hev, -⟩
    · exact hevict
    · by_cases hg : g = f
      · obtain ⟨e', he', hev'⟩ := h.entry
        rw [hg, he'] at he
        rw [Option.some.inj he, hev] at hev'
        cases hev'
      · rw [h.other g hg, honly g hg] at he
        cases he
  have hfree' : b'.freeList = [] := by rw [h.free, hfree]
  unfold acquireFrame
  rw [hfree']
  dsimp only
  rw [hnone]

theorem PoolRun.fetchOften {poolSize k : Nat} (hrun : PoolRun Allowed poolSize k b)
    (hp : b.pageTable.lookup p = some f) (halloc : b.Allocated p) {c : Int}
    (hinit : b.Fetched f c b) (n : Nat) : PoolRun Allowed poolSize k (b.fetchOften p n) := by
  induction n with
  | zero => exact hrun
  | succ n ih =>
    have hdisk := (fetchOften_fetched hp hinit n).disk
    refine @PoolRun.step _ _ _ _ _ (.fetchPage p) ih ?_ rfl
    show Allocated _ p
    rw [Allocated, hdisk]
    exact halloc

/-- A pool of one frame with a page in it. -/
theorem fetched_newPage :
    (create 1 2).newPage.2.Fetched 0 1 (create 1 2).newPage.2 :=
  ⟨rfl, rfl, rfl, rfl, ⟨_, rfl, rfl⟩, fun _ _ => rfl⟩

theorem poolRun_newPage : PoolRun Allowed 1 2 (create 1 2).newPage.2 :=
  @PoolRun.step _ _ _ _ _ .newPage .create trivial rfl

/-- After one `NewPage` and `2^31 - 1` calls of `FetchPage` for the page, its pin count is
`-2^31`, and no frame can be taken. -/
theorem poolRun_negative :
    ∃ b, PoolRun Allowed 1 2 b ∧ (b.pages 0).pinCount = -2 ^ 31 ∧ b.acquireFrame = (none, b) := by
  have hfetched := fetchOften_fetched (p := 0) rfl fetched_newPage (2 ^ 31 - 1)
  have halloc : (create 1 2).newPage.2.Allocated 0 := ⟨Int.le_refl 0, by decide⟩
  refine ⟨_, poolRun_newPage.fetchOften rfl halloc fetched_newPage (2 ^ 31 - 1), ?_,
    hfetched.acquireFrame_none (by decide) rfl fun g hg => ?_⟩
  · rw [hfetched.page]
    decide
  · exact AList.lookup_eq_none.mpr fun hmem => hg (List.mem_singleton.mp hmem)

/-- So pin counts are not non-negative in every state that allowed calls reach. -/
theorem poolRun_pinned :
    ¬ ∀ poolSize k b, PoolRun Allowed poolSize k b → ∀ f, 0 ≤ (b.pages f).pinCount := by
  intro hall
  obtain ⟨b, hrun, hcount, -⟩ := poolRun_negative
  have hnonneg := hall 1 2 b hrun 0
  rw [hcount] at hnonneg
  exact absurd hnonneg (by decide)

end Overflow

end OneBase
