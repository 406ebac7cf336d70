import OneBase.Buffer.PoolInvariant

/-!
# The pool is a transparent cache

Clients of the pool pin pages, write bytes through the `Page *` they got, and
unpin. `CacheState` puts next to the pool what the clients did: the pins that
are out, each with the frame it points to and whether its holder has written,
and the contents every page should have, the zero page of its `NewPage` changed
by every write since.

The discipline is the one the pool relies on (`CacheStep ok`): the calls of `NewPage` and
`FetchPage` satisfy `ok`, bytes are written through a pin that is out, and a holder that has
written unpins with `is_dirty = true`. With `ok = InRange` only allocated ids are fetched, and
page ids and pins stay below `2^31`.

- `CacheInv`: resident pages hold the contents, and so does the disk for every
  page that is not resident, or is resident, clean and without a writer.
- `CacheInv.tookFrame`: evicting a page writes back what the disk lacks.
- `CacheStep.inv`, `CacheRun.inv`: one step, and every run.
- `cacheRun_transparent`: the refinement.
- `cacheRun_loses`: after `2^32` pins of one page a written page is evicted unwritten.
-/

namespace OneBase

open BufferPoolManager Cpp

/-- A pin that is out: the frame the holder points to, the page it asked for,
and whether the holder has written through the pointer. -/
structure Pin where
  frame : FrameId
  pageId : PageId
  wrote : Bool
  deriving DecidableEq

/-- The pool, the pins that are out and the contents the clients expect. -/
structure CacheState where
  pool : BufferPoolManager
  pins : List Pin
  content : PageId → PageData

/-- A fresh pool without clients. -/
def CacheState.create (poolSize k : Nat) : CacheState where
  pool := BufferPoolManager.create poolSize k
  pins := []
  content := fun _ => PageData.zero

/-- One call on the pool, or one byte written through a pinned page. -/
inductive CacheStep (ok : BufferPoolManager → PoolOp → Prop) (s : CacheState) :
    CacheState → Prop where
  | newPage_null {b : BufferPoolManager} :
      ok s.pool .newPage → s.pool.newPage = (none, b) → CacheStep ok s { s with pool := b }
  | newPage {f : FrameId} {p : PageId} {b : BufferPoolManager} :
      ok s.pool .newPage → s.pool.newPage = (some (f, p), b) →
      CacheStep ok s { s with
        pool := b
        pins := ⟨f, p, false⟩ :: s.pins
        content := Function.update s.content p PageData.zero }
  | fetchPage_null {p : PageId} {b : BufferPoolManager} :
      ok s.pool (.fetchPage p) → s.pool.fetchPage p = (none, b) →
      CacheStep ok s { s with pool := b }
  | fetchPage {f : FrameId} {p : PageId} {b : BufferPoolManager} :
      ok s.pool (.fetchPage p) → s.pool.fetchPage p = (some f, b) →
      CacheStep ok s { s with pool := b, pins := ⟨f, p, false⟩ :: s.pins }
  | write {pin : Pin} (i : Fin pageSize) (v : UInt8) :
      pin ∈ s.pins →
      CacheStep ok s {
        pool := s.pool.modifyPage pin.frame fun page =>
          { page with data := Function.update page.data i v }
        pins := { pin with wrote := true } :: s.pins.erase pin
        content := Function.update s.content pin.pageId
          (Function.update (s.content pin.pageId) i v) }
  /-- The holder of a pin gives it back; a holder that has written says so. -/
  | unpinPage {pin : Pin} {isDirty : Bool} :
      pin ∈ s.pins → (pin.wrote = true → isDirty = true) →
      CacheStep ok s { s with
        pool := (s.pool.unpinPage pin.pageId isDirty).2
        pins := s.pins.erase pin }
  /-- A call of `UnpinPage` on a page nobody has pinned. -/
  | unpinPage_idle {p : PageId} (isDirty : Bool) :
      (∀ pin ∈ s.pins, pin.pageId ≠ p) →
      CacheStep ok s { s with pool := (s.pool.unpinPage p isDirty).2 }
  | flushPage (p : PageId) : CacheStep ok s { s with pool := (s.pool.flushPage p).2 }
  | flushAllPages : CacheStep ok s { s with pool := s.pool.flushAllPages }

/-- The states that disciplined clients reach from a fresh pool. -/
inductive CacheRun (ok : BufferPoolManager → PoolOp → Prop) (poolSize k : Nat) :
    CacheState → Prop where
  | create : CacheRun ok poolSize k (CacheState.create poolSize k)
  | step {s s' : CacheState} :
      CacheRun ok poolSize k s → CacheStep ok s s' → CacheRun ok poolSize k s'

/-- The number of pins out on a page. -/
def CacheState.pinsOn (s : CacheState) (p : PageId) : Nat :=
  s.pins.countP fun pin => pin.pageId = p

/-- Contents are where they should be; see the module documentation. -/
structure CacheInv (s : CacheState) : Prop where
  pool : s.pool.PoolInv none
  pinned : ∀ pin ∈ s.pins, s.pool.pageTable.lookup pin.pageId = some pin.frame
  count : ∀ p f, s.pool.pageTable.lookup p = some f → (s.pool.pages f).pinCount = s.pinsOn p
  resident : ∀ p f, s.pool.pageTable.lookup p = some f → (s.pool.pages f).data = s.content p
  evicted : ∀ p, s.pool.Allocated p → s.pool.pageTable.lookup p = none →
    s.pool.disk.image p = s.content p
  clean : ∀ p f, s.pool.pageTable.lookup p = some f → (s.pool.pages f).isDirty = false →
    (∀ pin ∈ s.pins, pin.pageId = p → pin.wrote = false) → s.pool.disk.image p = s.content p
  fresh : ∀ p, ¬ s.pool.Allocated p → s.pool.disk.image p = PageData.zero

theorem cacheInv_create (poolSize k : Nat) : CacheInv (CacheState.create poolSize k) where
  pool := poolInv_create poolSize k
  pinned := fun pin h => absurd h (List.not_mem_nil)
  count := fun p f h => by simp [CacheState.create, create] at h
  resident := fun p f h => by simp [CacheState.create, create] at h
  evicted := fun _ _ _ => rfl
  clean := fun p f h => by simp [CacheState.create, create] at h
  fresh := fun _ _ => rfl

namespace CacheInv

variable {s : CacheState}

/-- A page with a pin out has a positive pin count. -/
theorem pinCount_pos (h : CacheInv s) {pin : Pin} (hpin : pin ∈ s.pins) :
    0 < (s.pool.pages pin.frame).pinCount := by
  rw [h.count pin.pageId pin.frame (h.pinned pin hpin)]
  exact Int.natCast_pos.mpr (List.countP_pos_iff.mpr ⟨pin, hpin, by simp⟩)

/-- Nobody has a pin out on an unpinned frame's page. -/
theorem no_pins (h : CacheInv s) {p : PageId} {f : FrameId}
    (hp : s.pool.pageTable.lookup p = some f) (hzero : (s.pool.pages f).pinCount = 0) :
    ∀ pin ∈ s.pins, pin.pageId ≠ p := by
  rintro pin hpin rfl
  obtain rfl : pin.frame = f := Option.some.inj ((h.pinned pin hpin).symm.trans hp)
  exact absurd hzero (Int.ne_of_gt (h.pinCount_pos hpin))

/-- **Eviction loses nothing**: after a frame was taken, pages that stayed are
as before, and the disk has the contents of every page that is not resident. -/
theorem tookFrame (h : CacheInv s) {f : FrameId} {b : BufferPoolManager}
    (htook : s.pool.TookFrame f b) :
    (∀ p g, b.pageTable.lookup p = some g → s.pool.pageTable.lookup p = some g ∧
      b.disk.image p = s.pool.disk.image p) ∧
    (∀ p, s.pool.Allocated p → b.pageTable.lookup p = none → b.disk.image p = s.content p) ∧
    (∀ p, ¬ s.pool.Allocated p → b.disk.image p = PageData.zero) ∧
    ∀ pin ∈ s.pins, b.pageTable.lookup pin.pageId = some pin.frame := by
  rcases htook with ⟨-, htable, hdisk⟩ | ⟨q, hq, hzero, htable, hdisk⟩
  · rw [htable, hdisk]
    exact ⟨fun p g hp => ⟨hp, rfl⟩, h.evicted, h.fresh, h.pinned⟩
  · have hnopins := h.no_pins hq hzero
    have hother : ∀ p, p ≠ q → b.disk.image p = s.pool.disk.image p := by
      intro p hpq
      rw [hdisk]
      split
      · exact Function.update_of_ne hpq _ _
      · rfl
    -- the victim itself: written back if dirty, already on disk if clean
    have hvictim : b.disk.image q = s.content q := by
      rw [hdisk]
      cases hd : (s.pool.pages f).isDirty with
      | true =>
        simp only [if_true, Disk.writePage, Function.update_self]
        exact h.resident q f hq
      | false =>
        simp only [Bool.false_eq_true, if_false]
        exact h.clean q f hq hd fun pin hpin hpq => absurd hpq (hnopins pin hpin)
    refine ⟨fun p g hp => ?_, fun p halloc hp => ?_, fun p halloc => ?_, fun pin hpin => ?_⟩
    · rw [htable] at hp
      have hpq : p ≠ q := by
        rintro rfl
        simp at hp
      rw [AList.lookup_erase_ne hpq] at hp
      exact ⟨hp, hother p hpq⟩
    · by_cases hpq : p = q
      · exact hpq ▸ hvictim
      · rw [htable, AList.lookup_erase_ne hpq] at hp
        exact (hother p hpq).trans (h.evicted p halloc hp)
    · have hpq : p ≠ q := by
        rintro rfl
        exact halloc (h.pool.allocated p f hq)
      exact (hother p hpq).trans (h.fresh p halloc)
    · rw [htable, AList.lookup_erase_ne (hnopins pin hpin)]
      exact h.pinned pin hpin

/-- A page that is not resident gets the frame that was taken, with the bytes the
disk has for it, and one pin. -/
theorem install (h : CacheInv s) {f : FrameId} {b₁ b' : BufferPoolManager} {p : PageId}
    {content : PageId → PageData} (htook : s.pool.TookFrame f b₁) (hhole : b₁.PoolInv (some f))
    (hinv : b'.PoolInv none) (hp : s.pool.pageTable.lookup p = none)
    (hpages : b'.pages = Function.update s.pool.pages f ⟨content p, p, 1, false⟩)
    (htable : b'.pageTable = b₁.pageTable.insert p f) (himage : b'.disk.image = b₁.disk.image)
    (hdisk : b₁.disk.image p = content p) (halloc : b'.Allocated p)
    (halloc' : ∀ q, q ≠ p → (b'.Allocated q ↔ s.pool.Allocated q))
    (hcontent : ∀ q, q ≠ p → content q = s.content q) :
    CacheInv ⟨b', ⟨f, p, false⟩ :: s.pins, content⟩ := by
  obtain ⟨hstay, hgone, hfresh, hpinned⟩ := h.tookFrame htook
  have hnopins : ∀ pin ∈ s.pins, pin.pageId ≠ p := by
    rintro pin hpin rfl
    rw [h.pinned pin hpin] at hp
    cases hp
  have hself : b'.pageTable.lookup p = some f := by
    rw [htable, AList.lookup_insert]
  -- the other resident pages were resident before, in other frames
  have hlookup : ∀ q g, q ≠ p → b'.pageTable.lookup q = some g →
      s.pool.pageTable.lookup q = some g ∧ b'.disk.image q = s.pool.disk.image q ∧
        b'.pages g = s.pool.pages g := by
    intro q g hqp hq
    rw [htable] at hq
    obtain ⟨hq', hgf⟩ := lookup_of_insert_tookFrame htook hhole hqp hq
    rw [AList.lookup_insert_ne hqp] at hq
    exact ⟨hq', himage ▸ (hstay q g hq).2, by rw [hpages, Function.update_of_ne hgf]⟩
  constructor
  case pool => exact hinv
  case pinned =>
    intro pin hpin
    rcases List.mem_cons.mp hpin with rfl | hpin
    · exact hself
    · show b'.pageTable.lookup pin.pageId = some pin.frame
      rw [htable, AList.lookup_insert_ne (hnopins pin hpin)]
      exact hpinned pin hpin
  case count =>
    intro q g hq
    by_cases hqp : q = p
    · subst hqp
      obtain rfl : f = g := Option.some.inj (hself.symm.trans hq)
      have hzero : s.pins.countP (fun pin => pin.pageId = q) = 0 :=
        List.countP_eq_zero.mpr fun pin hpin => by simpa using hnopins pin hpin
      simp [CacheState.pinsOn, hpages, hzero]
    · obtain ⟨hq', -, hpage⟩ := hlookup q g hqp hq
      have hcount := h.count q g hq'
      simpa [CacheState.pinsOn, hpage, Ne.symm hqp] using hcount
  case resident =>
    intro q g hq
    by_cases hqp : q = p
    · subst hqp
      obtain rfl : f = g := Option.some.inj (hself.symm.trans hq)
      simp [hpages]
    · obtain ⟨hq', -, hpage⟩ := hlookup q g hqp hq
      simpa only [hpage, hcontent q hqp] using h.resident q g hq'
  case evicted =>
    intro q hq hnone
    have hqp : q ≠ p := by
      rintro rfl
      simp only [hself, reduceCtorEq] at hnone
    simp only [htable, AList.lookup_insert_ne hqp] at hnone
    simpa only [himage, hcontent q hqp] using hgone q ((halloc' q hqp).mp hq) hnone
  case clean =>
    intro q g hq hd hw
    by_cases hqp : q = p
    · subst hqp
      exact himage ▸ hdisk
    · obtain ⟨hq', hsame, hpage⟩ := hlookup q g hqp hq
      simp only [hpage] at hd
      have := h.clean q g hq' hd fun pin hpin => hw pin (List.mem_cons_of_mem _ hpin)
      simpa only [hsame, hcontent q hqp] using this
  case fresh =>
    intro q hq
    have hqp : q ≠ p := by
      rintro rfl
      exact hq halloc
    exact himage ▸ hfresh q fun hq' => hq ((halloc' q hqp).mpr hq')

/-- The frame of one resident page changes, its pins with it. -/
theorem touch (h : CacheInv s) {p : PageId} {f : FrameId} {page : Page} {r : LRUKReplacer}
    {pins : List Pin} {content : PageId → PageData}
    (hp : s.pool.pageTable.lookup p = some f)
    (hinv : PoolInv { s.pool with pages := Function.update s.pool.pages f page, replacer := r }
      none)
    (hold : ∀ pin ∈ pins, pin ∈ s.pins ∨ pin.frame = f ∧ pin.pageId = p)
    (hkeep : ∀ pin ∈ s.pins, pin.pageId ≠ p → pin ∈ pins)
    (hcount : page.pinCount = pins.countP fun pin => pin.pageId = p)
    (hcount' : ∀ q, q ≠ p → (pins.countP fun pin => pin.pageId = q) = s.pinsOn q)
    (hdata : page.data = content p) (hcontent : ∀ q, q ≠ p → content q = s.content q)
    (hclean : page.isDirty = false → (∀ pin ∈ pins, pin.pageId = p → pin.wrote = false) →
      s.pool.disk.image p = content p) :
    CacheInv ⟨{ s.pool with pages := Function.update s.pool.pages f page, replacer := r },
      pins, content⟩ := by
  have hother : ∀ q g, q ≠ p → s.pool.pageTable.lookup q = some g →
      Function.update s.pool.pages f page g = s.pool.pages g := by
    intro q g hqp hq
    refine Function.update_of_ne ?_ _ _
    rintro rfl
    exact hqp (h.pool.injective hq hp)
  constructor
  case pool => exact hinv
  case pinned =>
    intro pin hpin
    rcases hold pin hpin with hpin | ⟨hframe, hpage⟩
    · exact h.pinned pin hpin
    · show s.pool.pageTable.lookup pin.pageId = some pin.frame
      rw [hframe, hpage]
      exact hp
  case count =>
    intro q g hq
    by_cases hqp : q = p
    · subst hqp
      obtain rfl : f = g := Option.some.inj (hp.symm.trans hq)
      simpa only [Function.update_self, CacheState.pinsOn] using hcount
    · simp only [hother q g hqp hq, CacheState.pinsOn, hcount' q hqp]
      exact h.count q g hq
  case resident =>
    intro q g hq
    by_cases hqp : q = p
    · subst hqp
      obtain rfl : f = g := Option.some.inj (hp.symm.trans hq)
      simpa only [Function.update_self] using hdata
    · simp only [hother q g hqp hq, hcontent q hqp]
      exact h.resident q g hq
  case evicted =>
    intro q halloc hnone
    have hqp : q ≠ p := by
      rintro rfl
      simp only [hp, reduceCtorEq] at hnone
    simp only [hcontent q hqp]
    exact h.evicted q halloc hnone
  case clean =>
    intro q g hq hd hw
    by_cases hqp : q = p
    · subst hqp
      obtain rfl : f = g := Option.some.inj (hp.symm.trans hq)
      exact hclean (by simpa only [Function.update_self] using hd) hw
    · simp only [hother q g hqp hq] at hd
      simp only [hcontent q hqp]
      refine h.clean q g hq hd fun pin hpin hpq => hw pin (hkeep pin hpin ?_) hpq
      exact hpq ▸ hqp
  case fresh => exact h.fresh

/-- Writing back one resident page. -/
theorem flushEntry (h : CacheInv s) {p : PageId} {f : FrameId}
    (hp : s.pool.pageTable.lookup p = some f) :
    CacheInv { s with pool := s.pool.flushEntry ⟨p, f⟩ } := by
  have hsame : ∀ g, ((s.pool.flushEntry ⟨p, f⟩).pages g).data = (s.pool.pages g).data ∧
      ((s.pool.flushEntry ⟨p, f⟩).pages g).pinCount = (s.pool.pages g).pinCount := by
    intro g
    by_cases hgf : g = f
    · subst hgf
      simp [BufferPoolManager.flushEntry, modifyPage]
    · simp [BufferPoolManager.flushEntry, modifyPage, hgf]
  have himage : (s.pool.flushEntry ⟨p, f⟩).disk.image =
      Function.update s.pool.disk.image p (s.content p) := by
    rw [← h.resident p f hp]
    rfl
  have hdisk : ∀ q, s.pool.disk.image q = s.content q →
      (s.pool.flushEntry ⟨p, f⟩).disk.image q = s.content q := by
    intro q hq
    rw [himage]
    by_cases hqp : q = p
    · rw [hqp, Function.update_self]
    · rw [Function.update_of_ne hqp, hq]
  constructor
  case pool => exact h.pool.flushEntry _
  case pinned => exact h.pinned
  case count => exact fun q g hq => (hsame g).2.trans (h.count q g hq)
  case resident => exact fun q g hq => (hsame g).1.trans (h.resident q g hq)
  case evicted => exact fun q halloc hnone => hdisk q (h.evicted q halloc hnone)
  case clean =>
    intro q g hq hd hw
    by_cases hqp : q = p
    · show (s.pool.flushEntry ⟨p, f⟩).disk.image q = s.content q
      rw [himage, hqp, Function.update_self]
    · have hgf : g ≠ f := by
        rintro rfl
        exact hqp (h.pool.injective hq hp)
      refine hdisk q (h.clean q g hq ?_ hw)
      simpa [BufferPoolManager.flushEntry, modifyPage, hgf] using hd
  case fresh =>
    intro q hq
    have hqp : q ≠ p := by
      rintro rfl
      exact hq (h.pool.allocated q f hp)
    show (s.pool.flushEntry ⟨p, f⟩).disk.image q = PageData.zero
    rw [himage, Function.update_of_ne hqp]
    exact h.fresh q hq

/-- Writing back any resident pages: the disk then has the contents of each of
them, and of every page it already had the contents of. -/
theorem flushEntries (h : CacheInv s) (l : List (Sigma fun _ : PageId => FrameId))
    (hl : ∀ e ∈ l, s.pool.pageTable.lookup e.1 = some e.2) :
    CacheInv { s with pool := l.foldl BufferPoolManager.flushEntry s.pool } ∧
      ∀ p, ((∃ f, ⟨p, f⟩ ∈ l) ∨ s.pool.disk.image p = s.content p) →
        (l.foldl BufferPoolManager.flushEntry s.pool).disk.image p = s.content p := by
  induction l generalizing s with
  | nil =>
    refine ⟨h, ?_⟩
    rintro p (⟨f, hf⟩ | hp)
    · exact absurd hf List.not_mem_nil
    · exact hp
  | cons e l ih =>
    have hhead := hl e List.mem_cons_self
    have ⟨hinv, hdisk⟩ := ih (h.flushEntry hhead) fun e' he' => hl e' (List.mem_cons_of_mem _ he')
    refine ⟨hinv, fun p hp => hdisk p ?_⟩
    show _ ∨ Function.update s.pool.disk.image e.1 (s.pool.pages e.2).data p = s.content p
    by_cases hpe : p = e.1
    · refine .inr ?_
      rw [hpe, Function.update_self]
      exact h.resident e.1 e.2 hhead
    · rw [Function.update_of_ne hpe]
      refine hp.imp_left ?_
      rintro ⟨f, hf⟩
      rcases List.mem_cons.mp hf with rfl | hf
      · exact absurd rfl hpe
      · exact ⟨f, hf⟩

/-- **After `FlushAllPages` the disk has every allocated page.** -/
theorem flushAllPages (h : CacheInv s) :
    CacheInv { s with pool := s.pool.flushAllPages } ∧
      ∀ p, s.pool.Allocated p → s.pool.flushAllPages.disk.image p = s.content p := by
  have ⟨hinv, hdisk⟩ := h.flushEntries s.pool.pageTable.entries
    fun e he => AList.mem_lookup_iff.mpr he
  refine ⟨hinv, fun p halloc => hdisk p ?_⟩
  cases hp : s.pool.pageTable.lookup p with
  | none => exact .inr (h.evicted p halloc hp)
  | some f => exact .inl ⟨f, AList.mem_lookup_iff.mp hp⟩

/-! ## One step -/

theorem newPage (h : CacheInv s) {f : FrameId} {p : PageId} {b : BufferPoolManager}
    (hfit : s.pool.CountersFit .newPage) (hnew : s.pool.newPage = (some (f, p), b)) :
    CacheInv ⟨b, ⟨f, p, false⟩ :: s.pins, Function.update s.content p PageData.zero⟩ := by
  have hinv : b.PoolInv none := by simpa [hnew] using h.pool.newPage hfit
  unfold BufferPoolManager.newPage at hnew
  rcases h.pool.acquireFrame with ⟨hnone, -, -⟩ |
    ⟨f', b₁, hsome, hb₁, hpages, hnext, -, htook⟩
  · simp [hnone] at hnew
  · simp only [hsome, Prod.mk.injEq, Option.some.injEq] at hnew
    obtain ⟨⟨rfl, rfl⟩, rfl⟩ := hnew
    have hcounter := h.pool.newPage_counter hsome hnext hfit
    have hunalloc : ¬ s.pool.Allocated b₁.disk.nextPageId := by
      rintro ⟨-, hlt⟩
      exact absurd hlt (hnext ▸ Int.lt_irrefl _)
    refine h.install htook hb₁ hinv ?_ ?_ rfl rfl ?_ ?_ (fun q hq => ?_)
      (fun q hq => Function.update_of_ne hq _ _)
    · cases hl : s.pool.pageTable.lookup b₁.disk.nextPageId with
      | none => rfl
      | some g => exact absurd (h.pool.allocated _ g hl) hunalloc
    · simp only [BufferPoolManager.installPage, hpages, Function.update_self]
    · rw [(h.tookFrame htook).2.2.1 _ hunalloc, Function.update_self]
    · refine ⟨hb₁.next_nonneg, ?_⟩
      show b₁.disk.nextPageId < int32 (b₁.disk.nextPageId + 1)
      rw [hcounter]
      exact Int.lt_succ _
    · -- the counter moved by one: only the new id became allocated
      show 0 ≤ q ∧ q < int32 (b₁.disk.nextPageId + 1) ↔ 0 ≤ q ∧ q < s.pool.disk.nextPageId
      rw [hcounter, ← hnext]
      refine and_congr_right fun _ => ?_
      rw [Int.lt_add_one_iff, Int.le_iff_lt_or_eq]
      exact ⟨fun hlt => hlt.resolve_right hq, .inl⟩

theorem fetchPage (h : CacheInv s) {f : FrameId} {p : PageId} {b : BufferPoolManager}
    (hok : s.pool.InRange (.fetchPage p)) (hfetch : s.pool.fetchPage p = (some f, b)) :
    CacheInv ⟨b, ⟨f, p, false⟩ :: s.pins, s.content⟩ := by
  have hinv : b.PoolInv none := by simpa [hfetch] using h.pool.fetchPage hok
  obtain ⟨halloc, hfit⟩ := hok
  unfold BufferPoolManager.fetchPage at hfetch
  cases hp : s.pool.pageTable.lookup p with
  | some g =>
    simp only [hp, modifyPage, Prod.mk.injEq, Option.some.injEq] at hfetch
    obtain ⟨rfl, rfl⟩ := hfetch
    refine h.touch hp hinv (fun pin hpin => ?_) (fun pin hpin _ => List.mem_cons_of_mem _ hpin)
      ?_ (fun q hq => ?_) (h.resident p g hp) (fun _ _ => rfl) (fun hd hw => ?_)
    · rcases List.mem_cons.mp hpin with rfl | hpin
      · exact .inr ⟨rfl, rfl⟩
      · exact .inl hpin
    · show int32 ((s.pool.pages g).pinCount + 1) = _
      rw [int32_succ (h.pool.pin_nonneg g) (hfit g hp), h.count p g hp]
      simp [CacheState.pinsOn]
    · simp [CacheState.pinsOn, Ne.symm hq]
    · exact h.clean p g hp hd fun pin hpin => hw pin (List.mem_cons_of_mem _ hpin)
  | none =>
    rcases h.pool.acquireFrame with ⟨hnone, -, -⟩ |
      ⟨f', b₁, hsome, hb₁, hpages, hnext, -, htook⟩
    · simp [hp, hnone] at hfetch
    · simp only [hp, hsome, Prod.mk.injEq, Option.some.injEq] at hfetch
      obtain ⟨rfl, rfl⟩ := hfetch
      have hdisk : b₁.disk.image p = s.content p :=
        (h.tookFrame htook).2.1 p halloc (PoolInv.lookup_none_of_acquire hp htook)
      have hsame : ∀ q, Allocated (b₁.installPage f' p (b₁.disk.image p)) q ↔
          s.pool.Allocated q := by
        intro q
        simp only [Allocated, BufferPoolManager.installPage, hnext]
      refine h.install htook hb₁ hinv hp ?_ rfl rfl hdisk ((hsame p).mpr halloc)
        (fun q _ => hsame q) (fun _ _ => rfl)
      simp only [BufferPoolManager.installPage, hpages, hdisk]

theorem write (h : CacheInv s) {pin : Pin} (hpin : pin ∈ s.pins) (i : Fin pageSize) (v : UInt8) :
    CacheInv ⟨s.pool.modifyPage pin.frame fun page =>
        { page with data := Function.update page.data i v },
      { pin with wrote := true } :: s.pins.erase pin,
      Function.update s.content pin.pageId (Function.update (s.content pin.pageId) i v)⟩ := by
  have hp := h.pinned pin hpin
  have hcount : ∀ q, (({ pin with wrote := true } :: s.pins.erase pin).countP
      fun pin' => pin'.pageId = q) = s.pinsOn q := by
    intro q
    rw [CacheState.pinsOn, (List.perm_cons_erase hpin).countP_eq, List.countP_cons,
      List.countP_cons]
  refine h.touch hp ?_ (fun pin' hpin' => ?_) (fun pin' hpin' hne => ?_) ?_
    (fun q _ => hcount q) ?_ (fun q hq => Function.update_of_ne hq _ _) (fun _ hw => ?_)
  · refine h.pool.congr rfl rfl rfl rfl rfl fun g => ?_
    by_cases hg : g = pin.frame
    · subst hg
      simp
    · simp [hg]
  · rcases List.mem_cons.mp hpin' with rfl | hpin'
    · exact .inr ⟨rfl, rfl⟩
    · exact .inl (List.mem_of_mem_erase hpin')
  · refine List.mem_cons_of_mem _ ((List.mem_erase_of_ne ?_).mpr hpin')
    rintro rfl
    exact hne rfl
  · rw [hcount]
    exact h.count _ _ hp
  · simp only [Function.update_self]
    rw [h.resident _ _ hp]
  · exact absurd (hw _ List.mem_cons_self rfl) (by simp)

theorem unpinPage (h : CacheInv s) {pin : Pin} {isDirty : Bool} (hpin : pin ∈ s.pins)
    (hwrote : pin.wrote = true → isDirty = true) :
    CacheInv ⟨(s.pool.unpinPage pin.pageId isDirty).2, s.pins.erase pin, s.content⟩ := by
  have hp := h.pinned pin hpin
  have hpos := h.pinCount_pos hpin
  have hcount : ∀ q, s.pinsOn q =
      ((s.pins.erase pin).countP fun pin' => pin'.pageId = q) +
        if pin.pageId = q then 1 else 0 := by
    intro q
    rw [CacheState.pinsOn, (List.perm_cons_erase hpin).countP_eq, List.countP_cons]
    simp
  have hinv := h.pool.unpinPage pin.pageId isDirty
  obtain ⟨r, hres⟩ := s.pool.unpinPage_eq hp hpos isDirty
  rw [hres] at hinv ⊢
  refine h.touch hp hinv (fun pin' hpin' => .inl (List.mem_of_mem_erase hpin'))
    (fun pin' hpin' hne => ?_) ?_ (fun q hq => ?_) (h.resident _ _ hp) (fun _ _ => rfl)
    (fun hd hw => ?_)
  · refine (List.mem_erase_of_ne ?_).mpr hpin'
    rintro rfl
    exact hne rfl
  · show (s.pool.pages pin.frame).pinCount - 1 = _
    rw [h.count _ _ hp, hcount, if_pos rfl]
    push_cast
    exact Int.add_sub_cancel _ _
  · rw [hcount q, if_neg (Ne.symm hq), Nat.add_zero]
  · obtain ⟨hd, hclean⟩ := Bool.or_eq_false_iff.mp hd
    refine h.clean _ _ hp hd fun pin' hpin' hpage => ?_
    by_cases hne : pin' = pin
    · subst hne
      cases hw' : pin'.wrote with
      | false => rfl
      | true => rw [hwrote hw'] at hclean; cases hclean
    · exact hw pin' ((List.mem_erase_of_ne hne).mpr hpin') hpage

end CacheInv

/-- **One step** in range keeps the contents where they should be. -/
theorem CacheStep.inv {s s' : CacheState} (h : CacheInv s) (hstep : CacheStep InRange s s') :
    CacheInv s' := by
  cases hstep with
  | newPage_null _ hnew =>
    unfold BufferPoolManager.newPage at hnew
    rcases h.pool.acquireFrame with ⟨hnone, -, -⟩ | ⟨f, b₁, hsome, -⟩
    · simp only [hnone, Prod.mk.injEq, true_and] at hnew
      exact hnew ▸ h
    · simp [hsome] at hnew
  | newPage hok hnew => exact h.newPage hok.2 hnew
  | @fetchPage_null p b _ hfetch =>
    unfold BufferPoolManager.fetchPage at hfetch
    cases hp : s.pool.pageTable.lookup p with
    | some g => simp [hp] at hfetch
    | none =>
      rcases h.pool.acquireFrame with ⟨hnone, -, -⟩ | ⟨f, b₁, hsome, -⟩
      · simp only [hp, hnone, Prod.mk.injEq, true_and] at hfetch
        exact hfetch ▸ h
      · simp [hp, hsome] at hfetch
  | fetchPage hok hfetch => exact h.fetchPage hok hfetch
  | write i v hpin => exact h.write hpin i v
  | unpinPage hpin hwrote => exact h.unpinPage hpin hwrote
  | @unpinPage_idle p isDirty hidle =>
    -- nobody holds the page: it is not resident, or its pin count is 0
    have hsame : (s.pool.unpinPage p isDirty).2 = s.pool := by
      unfold BufferPoolManager.unpinPage
      cases hp : s.pool.pageTable.lookup p with
      | none => rfl
      | some f =>
        have hzero : s.pinsOn p = 0 :=
          List.countP_eq_zero.mpr fun pin hpin => by simpa using hidle pin hpin
        simp [h.count p f hp, hzero]
    rw [hsame]
    exact h
  | flushPage p =>
    unfold BufferPoolManager.flushPage
    cases hp : s.pool.pageTable.lookup p with
    | none => exact h
    | some f => exact h.flushEntry hp
  | flushAllPages => exact h.flushAllPages.1

/-- The contents are where they should be along every run in range. -/
theorem CacheRun.inv {poolSize k : Nat} {s : CacheState} (h : CacheRun InRange poolSize k s) :
    CacheInv s := by
  induction h with
  | create => exact cacheInv_create poolSize k
  | step _ hstep ih => exact hstep.inv ih

/-- **The pool is a transparent cache.** In every state that disciplined clients
reach whose page ids and pins stay in range: the bytes behind every pin that is out are the
contents of its page; a `FetchPage` of an allocated page that gets a frame finds the contents
there; and after `FlushAllPages` the disk has the contents of every allocated page. -/
theorem cacheRun_transparent {poolSize k : Nat} {s : CacheState}
    (hrun : CacheRun InRange poolSize k s) :
    (∀ pin ∈ s.pins, (s.pool.pages pin.frame).data = s.content pin.pageId) ∧
    (∀ p f b, s.pool.Allocated p → s.pool.fetchPage p = (some f, b) →
      (b.pages f).data = s.content p) ∧
    ∀ p, s.pool.Allocated p → s.pool.flushAllPages.disk.image p = s.content p := by
  have h := hrun.inv
  refine ⟨fun pin hpin => h.resident _ _ (h.pinned pin hpin), fun p f b halloc hfetch => ?_,
    h.flushAllPages.2⟩
  cases hp : s.pool.pageTable.lookup p with
  | some g =>
    -- a resident page keeps its bytes, whatever its pin count becomes
    simp only [BufferPoolManager.fetchPage, hp, modifyPage, Prod.mk.injEq,
      Option.some.injEq] at hfetch
    obtain ⟨rfl, rfl⟩ := hfetch
    show (Function.update s.pool.pages g _ g).data = s.content p
    rw [Function.update_self]
    exact h.resident p g hp
  | none =>
    have hfit : s.pool.CountersFit (.fetchPage p) := fun g hg => by
      rw [hp] at hg
      cases hg
    have h' := h.fetchPage ⟨halloc, hfit⟩ hfetch
    exact h'.resident p f (h'.pinned ⟨f, p, false⟩ List.mem_cons_self)

/-- One frame, a page created in it and written: `FlushAllPages` puts the byte
on disk. -/
theorem cacheRun_transparent_written :
    ∃ s : CacheState, CacheRun InRange 1 2 s ∧ s.pool.Allocated 0 ∧
      s.pool.flushAllPages.disk.image 0 =
        Function.update PageData.zero ⟨0, by decide⟩ 1 := by
  let s₁ : CacheState := ⟨(create 1 2).newPage.2, [⟨0, 0, false⟩],
    Function.update (fun _ => PageData.zero) 0 PageData.zero⟩
  have h₁ : CacheRun InRange 1 2 s₁ :=
    .step .create (.newPage ⟨trivial, .inr (by decide)⟩ rfl)
  have h₂ := CacheRun.step h₁ (.write ⟨0, by decide⟩ 1 (List.mem_singleton.mpr rfl))
  have halloc : (0 : Int) ≤ 0 ∧ (0 : Int) < 1 := by decide
  refine ⟨_, h₂, halloc, ?_⟩
  rw [(cacheRun_transparent h₂).2.2 0 halloc]
  simp [s₁]

/-! ## A run that leaves the range -/

/-- Many calls of `FetchPage` for a page that is resident. -/
theorem CacheRun.fetchOften {poolSize k : Nat} {s : CacheState}
    (hrun : CacheRun Allowed poolSize k s) {p : PageId} {f : FrameId}
    (hp : s.pool.pageTable.lookup p = some f) (halloc : s.pool.Allocated p) {c : Int}
    (hinit : s.pool.Fetched f c s.pool) (n : Nat) :
    CacheRun Allowed poolSize k ⟨s.pool.fetchOften p n,
      List.replicate n ⟨f, p, false⟩ ++ s.pins, s.content⟩ := by
  induction n with
  | zero => exact hrun
  | succ n ih =>
    have hfetched := fetchOften_fetched hp hinit n
    have hp' : (s.pool.fetchOften p n).pageTable.lookup p = some f := by rw [hfetched.table, hp]
    have halloc' : (s.pool.fetchOften p n).Allocated p := by
      rw [Allocated, hfetched.disk]
      exact halloc
    have hres : (s.pool.fetchOften p n).fetchPage p = (some f, s.pool.fetchOften p (n + 1)) := by
      have hfst : ((s.pool.fetchOften p n).fetchPage p).1 = some f := by
        simp only [BufferPoolManager.fetchPage, hp']
      exact Prod.ext hfst rfl
    exact .step ih (.fetchPage halloc' hres)

/-- The last pin of a page is given back. -/
theorem BufferPoolManager.Fetched.unpinPage {b b' : BufferPoolManager} {p : PageId}
    {f : FrameId} {c : Int} (h : b.Fetched f c b') (hp : b.pageTable.lookup p = some f)
    (hc : int32 c = 1) :
    ∃ e r, r.entries.lookup f = some e ∧ e.isEvictable = true ∧
      (∀ g, g ≠ f → r.entries.lookup g = b.replacer.entries.lookup g) ∧
      (b'.unpinPage p false).2 = { b' with
        pages := Function.update b'.pages f { b.pages f with pinCount := 0 }
        replacer := r } := by
  obtain ⟨e, he, -⟩ := h.entry
  have hp' : b'.pageTable.lookup p = some f := by rw [h.table, hp]
  refine ⟨{ e with isEvictable := true }, b'.replacer.setEvictable f true, ?_, rfl,
    fun g hg => ?_, ?_⟩
  · rw [LRUKReplacer.lookup_setEvictable_self, he]
    rfl
  · rw [LRUKReplacer.lookup_setEvictable_ne _ _ hg, h.other g hg]
  · simp only [BufferPoolManager.unpinPage, hp', modifyPage, Function.update_self, h.page,
      Bool.or_false]
    rw [hc]
    rfl

/-- `NewPage` when the only frame with a page in it may be evicted and is clean. -/
theorem BufferPoolManager.newPage_evicts {b : BufferPoolManager} {f : FrameId} {e : FrameEntry}
    (hf : f ≠ -1) (hfree : b.freeList = []) (he : b.replacer.entries.lookup f = some e)
    (hev : e.isEvictable = true) (honly : ∀ g, g ≠ f → b.replacer.entries.lookup g = none)
    (hclean : (b.pages f).isDirty = false) :
    ∃ r, b.newPage = (some (f, b.disk.nextPageId), { b with
      disk := { b.disk with nextPageId := int32 (b.disk.nextPageId + 1) }
      pages := Function.update b.pages f ⟨PageData.zero, b.disk.nextPageId, 1, false⟩
      pageTable := (b.pageTable.erase (b.pages f).pageId).insert b.disk.nextPageId f
      replacer := r }) := by
  have hids : (-1 : FrameId) ∉ b.replacer.entries :=
    AList.lookup_eq_none.mp (honly (-1) hf.symm)
  rcases b.replacer.evict_spec hids with ⟨-, hnone⟩ | ⟨g, e', he', -, hevict⟩
  · rw [hnone f e he] at hev
    cases hev
  · obtain rfl : g = f := by
      by_contra hg
      rw [honly g hg] at he'
      cases he'
    unfold BufferPoolManager.newPage acquireFrame
    rw [hfree]
    simp only [hevict, hclean]
    exact ⟨_, rfl⟩

/-- A page is created in the only frame and written, and then fetched `n` times, so often that
its pin count is 1 again. One reader gives its pin back, the writer still holds the page, and
the next `NewPage` evicts it as a clean page: the disk never gets the byte. -/
theorem cacheRun_evictsPinned {n : Nat} (hn : n ≠ 0) (hround : int32 (1 + n) = 1) :
    ∃ s, CacheRun Allowed 1 2 s ∧ s.pool.Allocated 0 ∧
      s.pool.flushAllPages.disk.image 0 = PageData.zero ∧
      s.content 0 = Function.update PageData.zero ⟨0, by decide⟩ 1 := by
  let s₁ : CacheState := ⟨(create 1 2).newPage.2, [⟨0, 0, false⟩],
    Function.update (fun _ => PageData.zero) 0 PageData.zero⟩
  have h₁ : CacheRun Allowed 1 2 s₁ := .step .create (.newPage trivial rfl)
  have h₂ := CacheRun.step h₁ (.write ⟨0, by decide⟩ 1 (List.mem_singleton.mpr rfl))
  let b : BufferPoolManager := s₁.pool.modifyPage 0 fun page =>
    { page with data := Function.update page.data ⟨0, by decide⟩ 1 }
  have hinit : b.Fetched 0 1 b := ⟨rfl, rfl, rfl, rfl, ⟨_, rfl, rfl⟩, fun _ _ => rfl⟩
  have honly : ∀ g, g ≠ 0 → b.replacer.entries.lookup g = none :=
    fun g hg => AList.lookup_eq_none.mpr fun hmem => hg (List.mem_singleton.mp hmem)
  have hfetched := fetchOften_fetched (p := 0) rfl hinit n
  have h₃ := h₂.fetchOften (p := 0) rfl ⟨Int.le_refl 0, by decide⟩ hinit n
  -- one pin is given back: the page has none left
  have hmem : (⟨0, 0, false⟩ : Pin) ∈ List.replicate n ⟨0, 0, false⟩ ++ [⟨0, 0, true⟩] :=
    List.mem_append_left _ (List.mem_replicate.mpr ⟨hn, rfl⟩)
  have h₄ := CacheRun.step h₃ (@CacheStep.unpinPage _ _ _ false hmem fun hw => nomatch hw)
  obtain ⟨e, r, he, hev, hother, hunpin⟩ :=
    hfetched.unpinPage (p := 0) rfl hround
  -- so its frame is taken
  have hfree : (b.fetchOften 0 n).freeList = [] := hfetched.free
  obtain ⟨r', hnew⟩ := BufferPoolManager.newPage_evicts
    (b := ((b.fetchOften 0 n).unpinPage 0 false).2) (f := 0) (e := e) (by decide)
    (by rw [hunpin]; exact hfree) (by rw [hunpin]; exact he) hev
    (fun g hg => by rw [hunpin]; exact (hother g hg).trans (honly g hg))
    (by rw [hunpin]; rfl)
  have h₅ := CacheRun.step h₄ (.newPage trivial hnew)
  refine ⟨_, h₅, ?_, ?_, ?_⟩
  · rw [hunpin, hfetched.disk]
    have halloc : (0 : Int) ≤ 0 ∧ (0 : Int) < 2 := by decide
    exact halloc
  · rw [hunpin, hfetched.disk, hfetched.table]
    rfl
  · rw [hunpin, hfetched.disk]
    rfl

theorem cacheRun_loses :
    ¬ ∀ poolSize k s, CacheRun Allowed poolSize k s → ∀ p, s.pool.Allocated p →
      s.pool.flushAllPages.disk.image p = s.content p := by
  intro hall
  obtain ⟨s, hrun, halloc, hdisk, hcontent⟩ :=
    cacheRun_evictsPinned (n := 2 ^ 32) (by decide) (by decide)
  have hbyte := congrFun (hdisk.symm.trans ((hall 1 2 s hrun 0 halloc).trans hcontent))
    ⟨0, by decide⟩
  rw [Function.update_self] at hbyte
  exact absurd hbyte (by decide)

end OneBase
