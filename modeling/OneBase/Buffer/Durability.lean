import OneBase.Buffer.PoolOnDisk

/-!
# Pages survive eviction and restart

`TransparentCache` shows the pool transparent over an ideal disk, and
`DiskManager` shows the file as good as an ideal disk while no read goes past
its end. Here clients use the pool over the file, with `DeletePage`, and with
restarts: the pool is flushed, the process ends, and a new pool is built over a
new `DiskManager` on the same file.

The clients' discipline is that of `CacheStep` and one rule more: the holder of
a page that `NewPage` made unpins it with `is_dirty = true`, as the table heap
and the B+ tree do. A new page that leaves the pool clean is never written, and
if it is beyond the end of the file the `FetchPage` that brings it back breaks
the stream for good. As in `TransparentCache`, page ids and pins stay below `2^31`.

- `DiskCacheStep`, `DiskCacheRun`: the calls, the writes and the restarts.
- `Unsaved`: a page that may not be in the file yet will be written when its
  frame is taken.
- `DiskCacheInv`: the pool simulates the one over the ideal disk, and every
  live page is in the file or unsaved.
- `DiskCacheStep.inv`, `DiskCacheRun.inv`: one step, and every run.
- `diskCacheRun_transparent`, `diskCacheRun_durable`: what clients see.
-/

namespace OneBase

open BufferPoolManager Cpp

/-- The call counts no page id and no pin past `2^31 - 1`. -/
def DiskPool.CountersFit (b : DiskPool) : PoolOp → Prop
  | .newPage => b.diskManager.nextPageId + 1 < 2 ^ 31
  | .fetchPage pageId => ∀ f, b.pageTable.lookup pageId = some f →
      (b.pages f).pinCount + 1 < 2 ^ 31
  | _ => True

theorem DiskPool.CountersFit.ideal {r : DiskPool} {b : BufferPoolManager} {op : PoolOp}
    (h : r.CountersFit op) (hsim : r.Simulates b) : b.CountersFit op := by
  obtain ⟨image, -, rfl⟩ := hsim
  cases op with
  | newPage => exact .inr h
  | fetchPage p => exact h
  | _ => trivial

/-- The pool over the file, the pins that are out, the contents the clients
expect, and the pages that were created and not deleted. -/
structure DiskCacheState where
  pool : DiskPool
  pins : List Pin
  content : PageId → PageData
  live : Set PageId

/-- A pool over a database file that does not exist yet. -/
def DiskCacheState.create (poolSize k : Nat) : DiskCacheState where
  pool := DiskPool.create poolSize (DiskManager.create []) k
  pins := []
  content := fun _ => PageData.zero
  live := ∅

/-- One call on the pool, one byte written through a pinned page, or a restart. -/
inductive DiskCacheStep (s : DiskCacheState) : DiskCacheState → Prop where
  | newPage_null {b : DiskPool} :
      s.pool.newPage = .ok (none, b) → DiskCacheStep s { s with pool := b }
  /-- The holder of a new page counts as one that has written. -/
  | newPage {f : FrameId} {p : PageId} {b : DiskPool} :
      s.pool.CountersFit .newPage → s.pool.newPage = .ok (some (f, p), b) →
      DiskCacheStep s {
        pool := b
        pins := ⟨f, p, true⟩ :: s.pins
        content := Function.update s.content p PageData.zero
        live := insert p s.live }
  | fetchPage_null {p : PageId} {b : DiskPool} :
      p ∈ s.live → s.pool.fetchPage p = .ok (none, b) → DiskCacheStep s { s with pool := b }
  | fetchPage {f : FrameId} {p : PageId} {b : DiskPool} :
      p ∈ s.live → s.pool.CountersFit (.fetchPage p) → s.pool.fetchPage p = .ok (some f, b) →
      DiskCacheStep s { s with pool := b, pins := ⟨f, p, false⟩ :: s.pins }
  | write {pin : Pin} (i : Fin pageSize) (v : UInt8) :
      pin ∈ s.pins →
      DiskCacheStep s { s with
        pool := s.pool.modifyPage pin.frame fun page =>
          { page with data := Function.update page.data i v }
        pins := { pin with wrote := true } :: s.pins.erase pin
        content := Function.update s.content pin.pageId
          (Function.update (s.content pin.pageId) i v) }
  | unpinPage {pin : Pin} {isDirty : Bool} :
      pin ∈ s.pins → (pin.wrote = true → isDirty = true) →
      DiskCacheStep s { s with
        pool := (s.pool.unpinPage pin.pageId isDirty).2
        pins := s.pins.erase pin }
  /-- A call of `UnpinPage` on a page nobody has pinned. -/
  | unpinPage_idle {p : PageId} (isDirty : Bool) :
      (∀ pin ∈ s.pins, pin.pageId ≠ p) →
      DiskCacheStep s { s with pool := (s.pool.unpinPage p isDirty).2 }
  /-- A deleted page is not live any more; a pinned page is not deleted. -/
  | deletePage {p : PageId} {ok : Bool} {b : DiskPool} :
      s.pool.deletePage p = .ok (ok, b) →
      DiskCacheStep s { s with pool := b, live := if ok then s.live \ {p} else s.live }
  | flushPage {p : PageId} {ok : Bool} {b : DiskPool} :
      s.pool.flushPage p = .ok (ok, b) → DiskCacheStep s { s with pool := b }
  | flushAllPages {b : DiskPool} :
      s.pool.flushAllPages = .ok b → DiskCacheStep s { s with pool := b }
  /-- The pool is flushed, the process ends with every pin it had, and a new one
  opens the same file. -/
  | restart {b : DiskPool} (poolSize k : Nat) :
      s.pool.flushAllPages = .ok b →
      DiskCacheStep s { s with
        pool := DiskPool.create poolSize (DiskManager.create b.diskManager.dbIo.file) k
        pins := [] }

/-- The states that disciplined clients reach, restarts included. -/
inductive DiskCacheRun : DiskCacheState → Prop where
  | create (poolSize k : Nat) : DiskCacheRun (DiskCacheState.create poolSize k)
  | step {s s' : DiskCacheState} : DiskCacheRun s → DiskCacheStep s s' → DiskCacheRun s'

/-- The page will be written when its frame is taken: it is resident and dirty,
or somebody who has written still holds it. -/
def Unsaved (b : BufferPoolManager) (pins : List Pin) (p : PageId) : Prop :=
  ∃ f, b.pageTable.lookup p = some f ∧
    ((b.pages f).isDirty = true ∨ ∃ pin ∈ pins, pin.pageId = p ∧ pin.wrote = true)

/-- The pool over the file stands for the pool `b` over the ideal disk, where
the pages have `content`; see the module documentation. -/
structure DiskCacheInv (s : DiskCacheState) (b : BufferPoolManager)
    (content : PageId → PageData) : Prop where
  simulates : s.pool.Simulates b
  cache : CacheInv ⟨b, s.pins, content⟩
  agree : ∀ p ∈ s.live, content p = s.content p
  allocated : ∀ p ∈ s.live, b.Allocated p
  pinned_live : ∀ pin ∈ s.pins, pin.pageId ∈ s.live
  backed : ∀ p ∈ s.live, p < s.pool.diskManager.numPages ∨ Unsaved b s.pins p
  bound : s.pool.diskManager.numPages ≤ Int.toNat b.disk.nextPageId
  next_lt : b.disk.nextPageId < 2 ^ 31

/-- Nothing that would save a page was undone. -/
theorem Unsaved.mono {b b' : BufferPoolManager} {pins pins' : List Pin} {p : PageId}
    (h : Unsaved b pins p) (htable : b'.pageTable = b.pageTable)
    (hdirty : ∀ g, (b.pages g).isDirty = true → (b'.pages g).isDirty = true)
    (hpins : ∀ pin ∈ pins, pin.wrote = true →
      ∃ pin' ∈ pins', pin'.pageId = pin.pageId ∧ pin'.wrote = true) : Unsaved b' pins' p := by
  obtain ⟨f, hf, hsave⟩ := h
  refine ⟨f, htable ▸ hf, hsave.imp (hdirty f) ?_⟩
  rintro ⟨pin, hpin, rfl, hwrote⟩
  exact hpins pin hpin hwrote

/-! ## Taking frames -/

namespace BufferPoolManager

variable {b : BufferPoolManager}

/-- What `NewPage` and a missing `FetchPage` have done when they return a frame:
the frame was taken, and the page put there. -/
structure Installed (b : BufferPoolManager) (f : FrameId) (p : PageId)
    (b' : BufferPoolManager) : Prop where
  took : ∃ b₁, b.TookFrame f b₁ ∧ b'.pageTable = b₁.pageTable.insert p f
  acquired : b.acquireFrame.1 = some f
  pages : ∀ g, g ≠ f → b'.pages g = b.pages g
  missing : b.pageTable.lookup p = none

theorem PoolInv.newPage_cases (h : b.PoolInv none) :
    b.newPage = (none, b) ∨
      ∃ f p b', b.newPage = (some (f, p), b') ∧ b.Installed f p b' ∧
        p = b.disk.nextPageId ∧ b'.disk.nextPageId = int32 (p + 1) := by
  unfold BufferPoolManager.newPage
  rcases h.acquireFrame with ⟨hnone, -, -⟩ | ⟨f, b₁, hsome, -, hpages, hnext, -, htook⟩
  · simp only [hnone, true_or]
  · simp only [hsome]
    refine .inr ⟨f, _, _, rfl, ⟨⟨b₁, htook, rfl⟩, by rw [hsome], fun g hg => ?_, ?_⟩, hnext, rfl⟩
    · rw [← hpages]
      exact Function.update_of_ne hg _ _
    · -- the id is beyond every page of the table
      cases hl : b.pageTable.lookup b₁.disk.nextPageId with
      | none => rfl
      | some g => exact absurd (h.allocated _ g hl).2 (hnext ▸ Int.lt_irrefl _)

theorem PoolInv.fetchPage_cases (h : b.PoolInv none) {p : PageId}
    (hp : b.pageTable.lookup p = none) :
    b.fetchPage p = (none, b) ∨
      ∃ f b', b.fetchPage p = (some f, b') ∧ b.Installed f p b' ∧
        b'.disk.nextPageId = b.disk.nextPageId := by
  unfold BufferPoolManager.fetchPage
  rcases h.acquireFrame with ⟨hnone, -, -⟩ | ⟨f, b₁, hsome, -, hpages, hnext, -, htook⟩
  · simp only [hp, hnone, true_or]
  · simp only [hp, hsome]
    refine .inr ⟨f, _, rfl, ⟨⟨b₁, htook, rfl⟩, by rw [hsome], fun g hg => ?_, hp⟩, hnext⟩
    rw [← hpages]
    exact Function.update_of_ne hg _ _

/-- A resident page other than the victim stays in its frame. -/
theorem Installed.lookup {f g : FrameId} {p q : PageId} {b' : BufferPoolManager}
    (h : b.Installed f p b') (hq : b.pageTable.lookup q = some g) (hgf : g ≠ f) :
    b'.pageTable.lookup q = some g ∧ b'.pages g = b.pages g := by
  obtain ⟨b₁, htook, htable⟩ := h.took
  have hqp : q ≠ p := by
    rintro rfl
    rw [h.missing] at hq
    cases hq
  refine ⟨?_, h.pages g hgf⟩
  rw [htable, AList.lookup_insert_ne hqp]
  rcases htook with ⟨-, htable₁, -⟩ | ⟨q', hq', -, htable₁, -⟩
  · rw [htable₁]
    exact hq
  · have hqq' : q ≠ q' := by
      rintro rfl
      exact hgf (Option.some.inj (hq.symm.trans hq'))
    rw [htable₁, AList.lookup_erase_ne hqq']
    exact hq

end BufferPoolManager

/-- **Taking a frame leaves no page behind**: an unsaved page stays unsaved, or
was the victim and is in the file now. -/
theorem CacheInv.unsaved_installed {b b' : BufferPoolManager} {pins : List Pin}
    {content : PageId → PageData} (h : CacheInv ⟨b, pins, content⟩) {f : FrameId} {p : PageId}
    (hinst : b.Installed f p b') {n : Nat}
    (hvictim : ∀ q g, b.acquireFrame.1 = some g → b.pageTable.lookup q = some g →
      (b.pages g).isDirty = true → q < n)
    (pin : Pin) {q : PageId} (hq : Unsaved b pins q) :
    q < n ∨ Unsaved b' (pin :: pins) q := by
  obtain ⟨g, hlookup, hsave⟩ := hq
  by_cases hgf : g = f
  · subst hgf
    -- the victim was unpinned, so it was dirty, and it was written back
    have hzero : (b.pages g).pinCount = 0 := by
      obtain ⟨b₁, ⟨hfree, -⟩ | ⟨q', -, hzero, -⟩, -⟩ := hinst.took
      · exact absurd ⟨q, hlookup⟩ (h.pool.free_unmapped g hfree)
      · exact hzero
    have hnopins := h.no_pins hlookup hzero
    rcases hsave with hdirty | ⟨pin', hpin', hpage, -⟩
    · exact .inl (hvictim q g hinst.acquired hlookup hdirty)
    · exact absurd hpage (hnopins pin' hpin')
  · obtain ⟨hlookup', hsame⟩ := hinst.lookup hlookup hgf
    refine .inr ⟨g, hlookup', ?_⟩
    rw [hsame]
    refine hsave.imp_right ?_
    rintro ⟨pin', hpin', hpage, hwrote⟩
    exact ⟨pin', List.mem_cons_of_mem _ hpin', hpage, hwrote⟩

/-! ## One step -/

/-- `UnpinPage` of a page without pins changes nothing. -/
theorem CacheInv.unpinPage_idle {s : CacheState} (h : CacheInv s) {p : PageId}
    (hidle : ∀ pin ∈ s.pins, pin.pageId ≠ p) (isDirty : Bool) :
    (s.pool.unpinPage p isDirty).2 = s.pool := by
  unfold BufferPoolManager.unpinPage
  cases hp : s.pool.pageTable.lookup p with
  | none => rfl
  | some f =>
    have hzero : s.pinsOn p = 0 :=
      List.countP_eq_zero.mpr fun pin hpin => by simpa using hidle pin hpin
    simp [h.count p f hp, hzero]

/-- Deleting an unpinned resident page: the frame is free, the disk keeps
whatever it has for the page. -/
theorem CacheInv.deletePage {s : CacheState} (h : CacheInv s) {p : PageId} {f : FrameId}
    (hp : s.pool.pageTable.lookup p = some f) (hzero : (s.pool.pages f).pinCount = 0) :
    ∃ b', s.pool.deletePage p = .ok (true, b') ∧ b'.disk = s.pool.disk ∧
      (∀ q g, q ≠ p → s.pool.pageTable.lookup q = some g →
        b'.pageTable.lookup q = some g ∧ b'.pages g = s.pool.pages g) ∧
      CacheInv ⟨b', s.pins, Function.update s.content p (s.pool.disk.image p)⟩ := by
  obtain ⟨ok, b', hdel, hinv, -, -⟩ := h.pool.deletePage p
  obtain ⟨e, he, hev⟩ := h.pool.entry hp
  have hnopins := h.no_pins hp hzero
  have hdel' := hdel
  unfold BufferPoolManager.deletePage at hdel'
  simp only [hp, hzero, gt_iff_lt, Int.lt_irrefl, if_false,
    s.pool.replacer.remove_of_evictable he (hev.mpr hzero), bind, Except.bind, pure,
    Except.pure, Except.ok.injEq, Prod.mk.injEq] at hdel'
  obtain ⟨rfl, hb'⟩ := hdel'
  have hdisk : b'.disk = s.pool.disk := by rw [← hb']; rfl
  have htable : b'.pageTable = s.pool.pageTable.erase p := by rw [← hb']; rfl
  have hpages : ∀ g, g ≠ f → b'.pages g = s.pool.pages g := by
    intro g hg
    rw [← hb']
    exact Function.update_of_ne hg _ _
  -- the other resident pages stay where they are
  have hstay : ∀ q g, b'.pageTable.lookup q = some g →
      q ≠ p ∧ s.pool.pageTable.lookup q = some g ∧ b'.pages g = s.pool.pages g := by
    intro q g hq
    rw [htable] at hq
    have hqp : q ≠ p := by
      rintro rfl
      simp at hq
    rw [AList.lookup_erase_ne hqp] at hq
    refine ⟨hqp, hq, hpages g ?_⟩
    rintro rfl
    exact hqp (h.pool.injective hq hp)
  have hcontent : ∀ q, q ≠ p →
      Function.update s.content p (s.pool.disk.image p) q = s.content q :=
    fun q hq => Function.update_of_ne hq _ _
  refine ⟨b', hdel, hdisk, fun q g hqp hq => ?_, ?_⟩
  · refine ⟨by rw [htable, AList.lookup_erase_ne hqp, hq], hpages g ?_⟩
    rintro rfl
    exact hqp (h.pool.injective hq hp)
  constructor
  case pool => exact hinv
  case pinned =>
    intro pin hpin
    show b'.pageTable.lookup pin.pageId = some pin.frame
    rw [htable, AList.lookup_erase_ne (hnopins pin hpin)]
    exact h.pinned pin hpin
  case count =>
    intro q g hq
    obtain ⟨-, hq', hpage⟩ := hstay q g hq
    simp only [hpage]
    exact h.count q g hq'
  case resident =>
    intro q g hq
    obtain ⟨hqp, hq', hpage⟩ := hstay q g hq
    simp only [hpage, hcontent q hqp]
    exact h.resident q g hq'
  case evicted =>
    intro q halloc hnone
    show b'.disk.image q = Function.update s.content p (s.pool.disk.image p) q
    rw [hdisk]
    by_cases hqp : q = p
    · rw [hqp, Function.update_self]
    · rw [hcontent q hqp]
      simp only [htable, AList.lookup_erase_ne hqp] at hnone
      refine h.evicted q ?_ hnone
      simpa only [Allocated, hdisk] using halloc
  case clean =>
    intro q g hq hd hw
    obtain ⟨hqp, hq', hpage⟩ := hstay q g hq
    simp only [hpage] at hd
    simp only [hdisk, hcontent q hqp]
    exact h.clean q g hq' hd hw
  case fresh =>
    intro q hq
    show b'.disk.image q = PageData.zero
    rw [hdisk]
    refine h.fresh q fun halloc => hq ?_
    simpa only [Allocated, hdisk] using halloc

/-- A holder that has not written may be counted as one that has. -/
theorem CacheInv.countAsWrote {b : BufferPoolManager} {pins : List Pin}
    {content : PageId → PageData} {f : FrameId} {p : PageId}
    (h : CacheInv ⟨b, ⟨f, p, false⟩ :: pins, content⟩) :
    CacheInv ⟨b, ⟨f, p, true⟩ :: pins, content⟩ where
  pool := h.pool
  pinned pin hpin := by
    rcases List.mem_cons.mp hpin with rfl | hpin
    · exact h.pinned ⟨f, p, false⟩ List.mem_cons_self
    · exact h.pinned pin (List.mem_cons_of_mem _ hpin)
  count q g hq := by
    have hcount := h.count q g hq
    simpa only [CacheState.pinsOn, List.countP_cons] using hcount
  resident := h.resident
  evicted := h.evicted
  clean q g hq hd hw := by
    refine h.clean q g hq hd fun pin hpin hpage => ?_
    rcases List.mem_cons.mp hpin with rfl | hpin
    · rfl
    · exact hw pin (List.mem_cons_of_mem _ hpin) hpage
  fresh := h.fresh

/-- The bytes of a page overwritten through a pin that is out. -/
theorem CacheInv.overwrite {s : CacheState} (h : CacheInv s) {pin : Pin} (hpin : pin ∈ s.pins)
    (u : PageData → PageData) :
    CacheInv ⟨s.pool.modifyPage pin.frame fun page => { page with data := u page.data },
      { pin with wrote := true } :: s.pins.erase pin,
      Function.update s.content pin.pageId (u (s.content pin.pageId))⟩ := by
  have hp := h.pinned pin hpin
  have hcount : ∀ q, (({ pin with wrote := true } :: s.pins.erase pin).countP
      fun pin' => pin'.pageId = q) = s.pinsOn q := by
    intro q
    rw [CacheState.pinsOn, (List.perm_cons_erase hpin).countP_eq, List.countP_cons,
      List.countP_cons]
  refine h.touch hp ?_ (fun pin' hpin' => ?_) (fun pin' hpin' hne => ?_) ?_
    (fun q _ => hcount q) ?_ (fun q hq => Function.update_of_ne hq _ _) (fun _ hw => ?_)
  · refine h.pool.congr rfl rfl rfl rfl rfl fun g => ?_
    by_cases hg : g = pin.frame
    · subst hg
      simp
    · simp [hg]
  · rcases List.mem_cons.mp hpin' with rfl | hpin'
    · exact .inr ⟨rfl, rfl⟩
    · exact .inl (List.mem_of_mem_erase hpin')
  · refine List.mem_cons_of_mem _ ((List.mem_erase_of_ne ?_).mpr hpin')
    rintro rfl
    exact hne rfl
  · rw [hcount]
    exact h.count _ _ hp
  · simp only [Function.update_self]
    rw [h.resident _ _ hp]
  · exact absurd (hw _ List.mem_cons_self rfl) (by simp)

namespace DiskCacheInv

variable {s : DiskCacheState} {b : BufferPoolManager} {content : PageId → PageData}

/-- The bytes behind a pin that is out. -/
theorem data_eq (h : DiskCacheInv s b content) {pin : Pin} (hpin : pin ∈ s.pins) :
    (s.pool.pages pin.frame).data = s.content pin.pageId := by
  rw [h.simulates.same.1, ← h.agree _ (h.pinned_live pin hpin)]
  exact h.cache.resident _ _ (h.cache.pinned pin hpin)

/-- There are as many pages in the file as page ids at most. -/
theorem numPages_lt (h : DiskCacheInv s b content) : s.pool.diskManager.numPages < 2 ^ 31 := by
  have hlt : ∀ (n : Nat) (a : Int), n ≤ a.toNat → a < 2 ^ 31 → n < 2 ^ 31 := by
    intro n a hbound hlt
    omega
  exact hlt _ _ h.bound h.next_lt

/-- A pool that did not change, or that only looks different. -/
theorem congr (h : DiskCacheInv s b content) {r : DiskPool} (hsim : r.Simulates b)
    (hgrows : DiskPool.Grows s.pool r b.disk.nextPageId) :
    DiskCacheInv { s with pool := r } b content where
  simulates := hsim
  cache := h.cache
  agree := h.agree
  allocated := h.allocated
  pinned_live := h.pinned_live
  backed p hp := (h.backed p hp).imp_left
    fun hlt => Int.lt_of_lt_of_le hlt (Int.ofNat_le.mpr hgrows.le)
  bound := Nat.le_trans hgrows.bound (Nat.max_le.mpr ⟨h.bound, Nat.le_refl _⟩)
  next_lt := h.next_lt

theorem newPage (h : DiskCacheInv s b content) (hfit : b.CountersFit .newPage) :
    ∃ r, s.pool.newPage = .ok (b.newPage.1, r) ∧
      ((b.newPage.1 = none ∧ DiskCacheInv { s with pool := r } b content) ∨
        ∃ f p, b.newPage.1 = some (f, p) ∧ p ∉ s.live ∧ p = b.disk.nextPageId ∧
          b.newPage.2.disk.nextPageId = p + 1 ∧
          DiskCacheInv ⟨r, ⟨f, p, true⟩ :: s.pins, Function.update s.content p PageData.zero,
            insert p s.live⟩ b.newPage.2 (Function.update content p PageData.zero)) := by
  have hpool : b.PoolInv none := h.cache.pool
  obtain ⟨r, hrun, hsim, hgrows, hvictim⟩ := h.simulates.newPage hpool
  refine ⟨r, hrun, ?_⟩
  rcases hpool.newPage_cases with hnone | ⟨f, p, b', hsome, hinst, rfl, hnext⟩
  · rw [hnone] at hsim ⊢
    exact .inl ⟨rfl, h.congr hsim hgrows⟩
  · have hroom : b.disk.nextPageId + 1 < 2 ^ 31 := hfit.resolve_left fun hnone => by
      rw [hsome] at hnone
      cases hnone
    rw [int32_succ hpool.next_nonneg hroom] at hnext
    rw [hsome] at hsim ⊢
    have hcache := h.cache.newPage hfit hsome
    have hnotlive : b.disk.nextPageId ∉ s.live :=
      fun hp => absurd (h.allocated _ hp).2 (Int.lt_irrefl _)
    have hself : b'.pageTable.lookup b.disk.nextPageId = some f :=
      hcache.pinned ⟨f, b.disk.nextPageId, false⟩ List.mem_cons_self
    refine .inr ⟨f, _, rfl, hnotlive, rfl, hnext, ?_⟩
    have hcontent : ∀ q ∈ s.live, q ≠ b.disk.nextPageId := by
      rintro q hq rfl
      exact hnotlive hq
    constructor
    case simulates => exact hsim
    case cache => exact hcache.countAsWrote
    case agree =>
      rintro q (rfl | hq)
      · simp only [Function.update_self]
      · simp only [Function.update_of_ne (hcontent q hq), h.agree q hq]
    case allocated =>
      rintro q (rfl | hq)
      · exact hcache.pool.allocated _ f hself
      · refine ⟨(h.allocated q hq).1, ?_⟩
        rw [hnext]
        exact Int.lt_trans (h.allocated q hq).2 (Int.lt_succ _)
    case pinned_live =>
      intro pin hpin
      rcases List.mem_cons.mp hpin with rfl | hpin
      · exact .inl rfl
      · exact .inr (h.pinned_live pin hpin)
    case backed =>
      rintro q (rfl | hq)
      · exact .inr ⟨f, hself, .inr ⟨_, List.mem_cons_self, rfl, rfl⟩⟩
      · rcases h.backed q hq with hlt | hunsaved
        · exact .inl (Int.lt_of_lt_of_le hlt (Int.ofNat_le.mpr hgrows.le))
        · exact h.cache.unsaved_installed hinst hvictim _ hunsaved
    case bound =>
      have hle : b.disk.nextPageId.toNat ≤ (b.disk.nextPageId + 1).toNat :=
        Int.toNat_le_toNat (Int.le_of_lt (Int.lt_succ _))
      rw [hnext]
      exact Nat.le_trans hgrows.bound (Nat.max_le.mpr ⟨Nat.le_trans h.bound hle, hle⟩)
    case next_lt => exact hnext ▸ hroom

theorem fetchPage (h : DiskCacheInv s b content) {p : PageId} (hp : p ∈ s.live)
    (hfit : b.CountersFit (.fetchPage p)) :
    ∃ r, s.pool.fetchPage p = .ok ((b.fetchPage p).1, r) ∧
      (((b.fetchPage p).1 = none ∧ DiskCacheInv { s with pool := r } b content) ∨
        ∃ f, (b.fetchPage p).1 = some f ∧
          (b.fetchPage p).2.disk.nextPageId = b.disk.nextPageId ∧
          DiskCacheInv { s with pool := r, pins := ⟨f, p, false⟩ :: s.pins }
            (b.fetchPage p).2 content) := by
  -- a page that is not resident has no frame that would save it: it is in the file
  have hin : b.pageTable.lookup p = none → p < s.pool.diskManager.numPages := by
    intro hnone
    rcases h.backed p hp with hlt | ⟨f, hf, -⟩
    · exact hlt
    · rw [hnone] at hf
      cases hf
  obtain ⟨r, hrun, hsim, hgrows, hvictim⟩ :=
    h.simulates.fetchPage h.cache.pool (h.allocated p hp).1 hin
  refine ⟨r, hrun, ?_⟩
  have hstep : ∀ f b', b.fetchPage p = (some f, b') → r.Simulates b' →
      b'.disk.nextPageId = b.disk.nextPageId →
      (∀ q, Unsaved b s.pins q → q < r.diskManager.numPages ∨
        Unsaved b' (⟨f, p, false⟩ :: s.pins) q) →
      DiskCacheInv { s with pool := r, pins := ⟨f, p, false⟩ :: s.pins } b' content := by
    intro f b' hfetch hsim hnext hunsaved
    constructor
    case simulates => exact hsim
    case cache => exact h.cache.fetchPage ⟨h.allocated p hp, hfit⟩ hfetch
    case agree => exact h.agree
    case allocated =>
      intro q hq
      rw [Allocated, hnext]
      exact h.allocated q hq
    case pinned_live =>
      intro pin hpin
      rcases List.mem_cons.mp hpin with rfl | hpin
      · exact hp
      · exact h.pinned_live pin hpin
    case backed =>
      intro q hq
      rcases h.backed q hq with hlt | hq'
      · exact .inl (Int.lt_of_lt_of_le hlt (Int.ofNat_le.mpr hgrows.le))
      · exact hunsaved q hq'
    case bound =>
      rw [hnext]
      exact Nat.le_trans hgrows.bound (Nat.max_le.mpr ⟨h.bound, Nat.le_refl _⟩)
    case next_lt => exact hnext ▸ h.next_lt
  cases hl : b.pageTable.lookup p with
  | some f =>
    have hfetch : (b.fetchPage p).1 = some f := by
      unfold BufferPoolManager.fetchPage
      rw [hl]
    have hnext : (b.fetchPage p).2.disk.nextPageId = b.disk.nextPageId := by
      unfold BufferPoolManager.fetchPage
      rw [hl]
      rfl
    refine .inr ⟨f, hfetch, hnext, hstep f _ (Prod.ext hfetch rfl) hsim hnext fun q hq => .inr ?_⟩
    · -- only the pin count of the frame changes
      refine hq.mono ?_ (fun g hg => ?_) fun pin hpin hwrote =>
        ⟨pin, List.mem_cons_of_mem _ hpin, rfl, hwrote⟩
      · unfold BufferPoolManager.fetchPage
        rw [hl]
        rfl
      · unfold BufferPoolManager.fetchPage
        rw [hl]
        by_cases hgf : g = f
        · subst hgf
          simpa [modifyPage] using hg
        · simpa [modifyPage, hgf] using hg
  | none =>
    rcases h.cache.pool.fetchPage_cases hl with hnone | ⟨f, b', hsome, hinst, hnext⟩
    · rw [hnone] at hsim ⊢
      exact .inl ⟨rfl, h.congr hsim hgrows⟩
    · rw [hsome] at hsim ⊢
      exact .inr ⟨f, rfl, hnext, hstep f b' hsome hsim hnext
        fun q hq => h.cache.unsaved_installed hinst (hvictim hl) _ hq⟩

/-- The bytes of a page overwritten through a pin that is out. -/
theorem overwrite (h : DiskCacheInv s b content) {pin : Pin} (hpin : pin ∈ s.pins)
    (u : PageData → PageData) :
    DiskCacheInv { s with
        pool := s.pool.modifyPage pin.frame fun page => { page with data := u page.data }
        pins := { pin with wrote := true } :: s.pins.erase pin
        content := Function.update s.content pin.pageId (u (s.content pin.pageId)) }
      (b.modifyPage pin.frame fun page => { page with data := u page.data })
      (Function.update content pin.pageId (u (content pin.pageId))) := by
  constructor
  case simulates =>
    obtain ⟨image, hholds, rfl⟩ := h.simulates
    exact ⟨image, hholds, rfl⟩
  case cache => exact h.cache.overwrite hpin u
  case agree =>
    intro q hq
    by_cases hqp : q = pin.pageId
    · subst hqp
      simp only [Function.update_self, h.agree _ hq]
    · simp only [Function.update_of_ne hqp, h.agree q hq]
  case allocated => exact h.allocated
  case pinned_live =>
    intro pin' hpin'
    rcases List.mem_cons.mp hpin' with rfl | hpin'
    · exact h.pinned_live pin hpin
    · exact h.pinned_live pin' (List.mem_of_mem_erase hpin')
  case backed =>
    refine fun q hq => (h.backed q hq).imp_right fun hunsaved => ?_
    refine hunsaved.mono rfl (fun g hg => ?_) fun pin' hpin' hwrote => ?_
    · by_cases hgf : g = pin.frame
      · subst hgf
        simpa [modifyPage] using hg
      · simpa [modifyPage, hgf] using hg
    · by_cases hne : pin' = pin
      · exact ⟨_, List.mem_cons_self, by rw [hne], rfl⟩
      · exact ⟨pin', List.mem_cons_of_mem _ ((List.mem_erase_of_ne hne).mpr hpin'), rfl, hwrote⟩
  case bound => exact h.bound
  case next_lt => exact h.next_lt

/-- A pin given back: if its holder has written, the frame is dirty now. -/
theorem unpinPage (h : DiskCacheInv s b content) {pin : Pin} {isDirty : Bool}
    (hpin : pin ∈ s.pins) (hwrote : pin.wrote = true → isDirty = true) :
    DiskCacheInv { s with
        pool := (s.pool.unpinPage pin.pageId isDirty).2
        pins := s.pins.erase pin } (b.unpinPage pin.pageId isDirty).2 content := by
  have hcache := h.cache.unpinPage hpin hwrote
  have hsim := (h.simulates.unpinPage pin.pageId isDirty).2
  have hlookup : b.pageTable.lookup pin.pageId = some pin.frame := h.cache.pinned pin hpin
  have hdisk := DiskPool.unpinPage_diskManager s.pool pin.pageId isDirty
  obtain ⟨rep, hres⟩ := b.unpinPage_eq hlookup (h.cache.pinCount_pos hpin) isDirty
  constructor
  case simulates => exact hsim
  case cache => exact hcache
  case agree => exact h.agree
  case allocated =>
    rw [hres]
    exact h.allocated
  case pinned_live => exact fun pin' hpin' => h.pinned_live pin' (List.mem_of_mem_erase hpin')
  case backed =>
    intro q hq
    show q < (s.pool.unpinPage pin.pageId isDirty).2.diskManager.numPages ∨ _
    rw [hdisk, hres]
    refine (h.backed q hq).imp_right ?_
    rintro ⟨f, hf, hsave⟩
    refine ⟨f, hf, ?_⟩
    rcases hsave with hdirty | ⟨pin', hpin', hpage, hw⟩
    · by_cases hff : f = pin.frame
      · subst hff
        simp [hdirty]
      · simp [hff, hdirty]
    · by_cases hne : pin' = pin
      · subst hne
        have hff : f = pin'.frame :=
          Option.some.inj ((hpage ▸ hf).symm.trans hlookup)
        simp [hff, hwrote hw]
      · exact .inr ⟨pin', (List.mem_erase_of_ne hne).mpr hpin', hpage, hw⟩
  case bound =>
    show (s.pool.unpinPage pin.pageId isDirty).2.diskManager.numPages ≤ _
    rw [hdisk, hres]
    exact h.bound
  case next_lt =>
    rw [hres]
    exact h.next_lt

/-- A deleted page may lose its contents; the others keep theirs. -/
theorem deletePage (h : DiskCacheInv s b content) (p : PageId) :
    ∃ ok r b' content', s.pool.deletePage p = .ok (ok, r) ∧
      DiskCacheInv { s with pool := r, live := if ok then s.live \ {p} else s.live }
        b' content' := by
  by_cases hfree : ∃ f, b.pageTable.lookup p = some f ∧ (b.pages f).pinCount = 0
  · obtain ⟨f, hp, hzero⟩ := hfree
    obtain ⟨b', hdel, hdisk, hstay, hcache⟩ := h.cache.deletePage hp hzero
    obtain ⟨r, hrun, hsim, hsame⟩ := h.simulates.deletePage hdel
    have hnopins : ∀ pin ∈ s.pins, pin.pageId ≠ p := h.cache.no_pins hp hzero
    have hdisk' : b'.disk = b.disk := hdisk
    refine ⟨true, r, b', Function.update content p (b.disk.image p), hrun, ?_⟩
    constructor
    case simulates => exact hsim
    case cache => exact hcache
    case agree =>
      rintro q ⟨hq, hqp⟩
      exact (Function.update_of_ne hqp _ _).trans (h.agree q hq)
    case allocated =>
      rintro q ⟨hq, -⟩
      rw [Allocated, hdisk']
      exact h.allocated q hq
    case pinned_live => exact fun pin hpin => ⟨h.pinned_live pin hpin, hnopins pin hpin⟩
    case backed =>
      rintro q ⟨hq, hqp⟩
      show q < r.diskManager.numPages ∨ _
      rw [hsame]
      refine (h.backed q hq).imp_right ?_
      rintro ⟨g, hg, hsave⟩
      obtain ⟨hg', hpage⟩ := hstay q g hqp hg
      exact ⟨g, hg', hpage ▸ hsave⟩
    case bound =>
      show r.diskManager.numPages ≤ _
      rw [hsame, hdisk']
      exact h.bound
    case next_lt => exact hdisk' ▸ h.next_lt
  · -- the page is pinned, or not resident: the pool stays as it is
    obtain ⟨ok, hdel⟩ : ∃ ok, b.deletePage p = .ok (ok, b) ∧ (ok = true →
        b.pageTable.lookup p = none) := by
      unfold BufferPoolManager.deletePage
      cases hp : b.pageTable.lookup p with
      | none => exact ⟨true, rfl, fun _ => rfl⟩
      | some f =>
        have hpos : (b.pages f).pinCount > 0 := by
          have hnonneg : 0 ≤ (b.pages f).pinCount := h.cache.pool.pin_nonneg f
          have hne : (b.pages f).pinCount ≠ 0 := fun hzero => hfree ⟨f, hp, hzero⟩
          omega
        exact ⟨false, by simp only [hpos, if_true], fun hok => absurd hok Bool.false_ne_true⟩
    obtain ⟨r, hrun, hsim, hsame⟩ := h.simulates.deletePage hdel.1
    have hsub : ∀ q ∈ (if ok then s.live \ {p} else s.live), q ∈ s.live := by
      intro q hq
      cases ok with
      | true => exact hq.1
      | false => exact hq
    have hstill := h.congr hsim (.of_eq hsame)
    refine ⟨ok, r, b, content, hrun, ?_⟩
    constructor
    case simulates => exact hsim
    case cache => exact h.cache
    case agree => exact fun q hq => h.agree q (hsub q hq)
    case allocated => exact fun q hq => h.allocated q (hsub q hq)
    case pinned_live =>
      intro pin hpin
      have hlive := h.pinned_live pin hpin
      cases ok with
      | false => exact hlive
      | true =>
        refine ⟨hlive, ?_⟩
        rintro rfl
        have hpinned : b.pageTable.lookup pin.pageId = some pin.frame := h.cache.pinned pin hpin
        rw [hdel.2 rfl] at hpinned
        cases hpinned
    case backed => exact fun q hq => hstill.backed q (hsub q hq)
    case bound => exact hstill.bound
    case next_lt => exact h.next_lt

/-- What flushing does to the pages nobody wrote back: nothing. -/
theorem flushed {r : DiskPool} {b' : BufferPoolManager} (h : DiskCacheInv s b content)
    (hsim : r.Simulates b') (hgrows : DiskPool.Grows s.pool r b.disk.nextPageId)
    (hcache : CacheInv ⟨b', s.pins, content⟩) (hnext : b'.disk.nextPageId = b.disk.nextPageId)
    (hbacked : ∀ q ∈ s.live, Unsaved b s.pins q →
      q < r.diskManager.numPages ∨ Unsaved b' s.pins q) :
    DiskCacheInv { s with pool := r } b' content where
  simulates := hsim
  cache := hcache
  agree := h.agree
  allocated q hq := by
    rw [Allocated, hnext]
    exact h.allocated q hq
  pinned_live := h.pinned_live
  backed q hq := by
    rcases h.backed q hq with hlt | hunsaved
    · exact .inl (Int.lt_of_lt_of_le hlt (Int.ofNat_le.mpr hgrows.le))
    · exact hbacked q hq hunsaved
  bound := by
    rw [hnext]
    exact Nat.le_trans hgrows.bound (Nat.max_le.mpr ⟨h.bound, Nat.le_refl _⟩)
  next_lt := hnext ▸ h.next_lt

theorem flushPage (h : DiskCacheInv s b content) (p : PageId) :
    ∃ ok r b', s.pool.flushPage p = .ok (ok, r) ∧ DiskCacheInv { s with pool := r } b' content := by
  obtain ⟨image, hholds, heq⟩ := id h.simulates
  have htable : s.pool.pageTable = b.pageTable := by rw [heq]; rfl
  unfold DiskPool.flushPage
  rw [htable]
  cases hp : b.pageTable.lookup p with
  | none => exact ⟨false, s.pool, b, rfl, h⟩
  | some f =>
    have halloc := h.cache.pool.allocated p f hp
    obtain ⟨r, hrun, hsim, hgrows, hlt⟩ := h.simulates.flushEntry (f := f) halloc
    refine ⟨true, r, b.flushEntry ⟨p, f⟩, by simp only [hrun, bind, Except.bind, pure,
      Except.pure], h.flushed hsim hgrows (h.cache.flushEntry hp) rfl fun q hq hunsaved => ?_⟩
    obtain ⟨g, hg, hsave⟩ := hunsaved
    by_cases hqp : q = p
    · exact .inl (hqp ▸ hlt)
    · refine .inr ⟨g, hg, hsave.imp_left fun hdirty => ?_⟩
      have hgf : g ≠ f := by
        rintro rfl
        exact hqp (h.cache.pool.injective hg hp)
      simpa [BufferPoolManager.flushEntry, modifyPage, hgf] using hdirty

theorem flushAllPages (h : DiskCacheInv s b content) :
    ∃ r, s.pool.flushAllPages = .ok r ∧ r.Simulates b.flushAllPages ∧
      DiskCacheInv { s with pool := r } b.flushAllPages content ∧
      b.flushAllPages.disk.nextPageId = b.disk.nextPageId ∧
      (∀ p ∈ s.live, p < r.diskManager.numPages) ∧
      ∀ p ∈ s.live, b.flushAllPages.disk.image p = s.content p := by
  obtain ⟨r, hrun, hsim, hgrows, hin⟩ := h.simulates.flushAllPages h.cache.pool
  obtain ⟨hcache, himage⟩ := h.cache.flushAllPages
  have hnext : ∀ (l : List (Sigma fun _ : PageId => FrameId)) (b : BufferPoolManager),
      (l.foldl BufferPoolManager.flushEntry b).disk.nextPageId = b.disk.nextPageId := by
    intro l
    induction l with
    | nil => exact fun _ => rfl
    | cons e l ih => exact fun b => ih (b.flushEntry e)
  have hfile : ∀ q, Unsaved b s.pins q → q < r.diskManager.numPages := by
    rintro q ⟨g, hg, -⟩
    exact hin q g hg
  have hinv := h.flushed hsim hgrows hcache (hnext _ b) fun q _ hq => .inl (hfile q hq)
  refine ⟨r, hrun, hsim, hinv, hnext _ b, fun p hp => ?_, fun p hp => ?_⟩
  · rcases h.backed p hp with hlt | hunsaved
    · exact Int.lt_of_lt_of_le hlt (Int.ofNat_le.mpr hgrows.le)
    · exact hfile p hunsaved
  · exact (himage p (h.allocated p hp)).trans (h.agree p hp)

end DiskCacheInv

/-! ## Restarts -/

namespace DiskManager

variable {d : DiskManager} {image : DiskImage}

/-- The constructor finds the pages where the last manager left them. -/
theorem Holds.reopen (h : d.Holds image) :
    (create d.dbIo.file).Holds image ∧ (create d.dbIo.file).numPages = d.numPages := by
  have hnum : d.dbIo.file.length / pageSize = d.numPages := by
    rw [h.length]
    exact Nat.mul_div_cancel _ (by decide)
  refine ⟨⟨rfl, ?_, h.page⟩, hnum⟩
  show d.dbIo.file.length = d.dbIo.file.length / pageSize * pageSize
  rw [hnum, h.length]

/-- The constructor casts the number of pages to a `page_id_t`. -/
theorem Holds.reopen_next (h : d.Holds image) (hlt : d.numPages < 2 ^ 31) :
    (create d.dbIo.file).nextPageId = d.numPages := by
  have hnum : d.dbIo.file.length / pageSize = d.numPages := h.reopen.2
  rw [create_nextPageId, hnum]
  exact int32_eq ⟨by omega, by omega⟩

/-- There is nothing past the end of the file. -/
theorem Holds.zero_past_end (h : d.Holds image) {p : Nat} (hp : d.numPages ≤ p) :
    image p = PageData.zero := by
  funext i
  rw [← h.page p i]
  have hlen : d.dbIo.file.length ≤ p * pageSize + i := by
    rw [h.length]
    exact Nat.le_trans (Nat.mul_le_mul_right _ hp) (Nat.le_add_right _ _)
  simp only [Cpp.Fstream.byteAt, List.getD_eq_getElem?_getD, List.getElem?_eq_none hlen]
  rfl

end DiskManager

/-- A new pool over a disk that has been used before. -/
theorem cacheInv_restart (poolSize k : Nat) (image : DiskImage) (next : Nat)
    (hfresh : ∀ p : PageId, ¬ (0 ≤ p ∧ p < next) → image p = PageData.zero) :
    CacheInv ⟨{ BufferPoolManager.create poolSize k with disk := ⟨image, next⟩ }, [], image⟩ := by
  have hempty : ∀ p f, (BufferPoolManager.create poolSize k).pageTable.lookup p ≠ some f := by
    intro p f h
    simp [BufferPoolManager.create] at h
  have hnew := poolInv_create poolSize k
  refine ⟨⟨hnew.pageId, Int.natCast_nonneg next, fun p f h => absurd h (hempty p f),
    hnew.mapped_isFrame, hnew.free_isFrame, hnew.free_nodup, hnew.free_unmapped, hnew.covered,
    hnew.hole_loose, hnew.pin_nonneg, hnew.pinned_mapped, hnew.tracked, hnew.evictable⟩,
    fun pin h => absurd h List.not_mem_nil, fun p f h => absurd h (hempty p f),
    fun p f h => absurd h (hempty p f), fun p _ _ => rfl, fun p f h => absurd h (hempty p f),
    hfresh⟩

theorem DiskCacheInv.restart {s : DiskCacheState} {b : BufferPoolManager}
    {content : PageId → PageData} (h : DiskCacheInv s b content) (poolSize k : Nat)
    {r : DiskPool} (hrun : s.pool.flushAllPages = .ok r) :
    ∃ b' content', DiskCacheInv { s with
      pool := DiskPool.create poolSize (DiskManager.create r.diskManager.dbIo.file) k
      pins := [] } b' content' := by
  obtain ⟨r', hrun', ⟨image, hholds, heq⟩, hinv, -, hfile, himage⟩ := h.flushAllPages
  obtain rfl : r' = r := Except.ok.inj (hrun'.symm.trans hrun)
  obtain ⟨hreopen, hnum⟩ := hholds.reopen
  have himage' : b.flushAllPages.disk.image = image := by rw [heq]; rfl
  have hlt := hinv.numPages_lt
  have hnumPages := hholds.reopen_next hlt
  have hzero : ∀ p : PageId, ¬ (0 ≤ p ∧ p < r'.diskManager.numPages) →
      image p = PageData.zero := by
    intro p hp
    by_cases h0 : 0 ≤ p
    · obtain ⟨n, rfl⟩ := Int.eq_ofNat_of_zero_le h0
      exact hholds.zero_past_end (Nat.le_of_not_lt fun hlt => hp ⟨h0, Int.ofNat_lt.mpr hlt⟩)
    · have hfresh := hinv.cache.fresh p fun halloc => h0 halloc.1
      rwa [← himage']
  -- of the new manager, what the constructor found in the file is all that counts
  generalize DiskManager.create r'.diskManager.dbIo.file = d at hreopen hnum hnumPages ⊢
  refine ⟨_, image, ⟨⟨image, hreopen, rfl⟩, ?_, fun p hp => ?_, fun p hp => ?_,
    fun pin hpin => absurd hpin List.not_mem_nil, fun p hp => .inl ?_, ?_, ?_⟩⟩
  · have hcache := cacheInv_restart poolSize k image r'.diskManager.numPages hzero
    show CacheInv ⟨⟨poolSize, ⟨image, d.nextPageId⟩, _, _, _, _⟩, _, _⟩
    rw [hnumPages]
    exact hcache
  · rw [← himage']
    exact himage p hp
  · refine ⟨(h.allocated p hp).1, ?_⟩
    show p < d.nextPageId
    rw [hnumPages]
    exact hfile p hp
  · show p < d.numPages
    rw [hnum]
    exact hfile p hp
  · show d.numPages ≤ Int.toNat d.nextPageId
    rw [hnumPages, hnum]
    exact Nat.le_refl _
  · show d.nextPageId < 2 ^ 31
    rw [hnumPages]
    exact Int.ofNat_lt.mpr hlt

/-! ## Every run -/

theorem diskCacheInv_create (poolSize k : Nat) :
    DiskCacheInv (DiskCacheState.create poolSize k) (BufferPoolManager.create poolSize k)
      (fun _ => PageData.zero) where
  simulates := ⟨DiskImage.blank, DiskManager.holds_create, by
    simp [DiskPool.ideal, DiskCacheState.create, DiskPool.create, BufferPoolManager.create,
      DiskManager.create, int32]⟩
  cache := cacheInv_create poolSize k
  agree := fun p hp => absurd hp id
  allocated := fun p hp => absurd hp id
  pinned_live := fun pin hpin => absurd hpin List.not_mem_nil
  backed := fun p hp => absurd hp id
  bound := Nat.zero_le _
  next_lt := by
    show (0 : Int) < 2 ^ 31
    decide

/-- **One step.** -/
theorem DiskCacheStep.inv {s s' : DiskCacheState} {b : BufferPoolManager}
    {content : PageId → PageData} (h : DiskCacheInv s b content) (hstep : DiskCacheStep s s') :
    ∃ b' content', DiskCacheInv s' b' content' := by
  cases hstep with
  | newPage_null hnew =>
    obtain ⟨r, hrun, hsim, hgrows, -⟩ := h.simulates.newPage h.cache.pool
    obtain ⟨hfst, rfl⟩ := Prod.mk.inj (Except.ok.inj (hrun.symm.trans hnew))
    rcases h.cache.pool.newPage_cases with hnone | ⟨f, p, b', hsome, -⟩
    · rw [hnone] at hsim
      exact ⟨_, _, h.congr hsim hgrows⟩
    · rw [hsome] at hfst
      cases hfst
  | newPage hfit hnew =>
    obtain ⟨r, hrun, hres⟩ := h.newPage (hfit.ideal h.simulates)
    obtain ⟨hfst, rfl⟩ := Prod.mk.inj (Except.ok.inj (hrun.symm.trans hnew))
    rcases hres with ⟨hnone, -⟩ | ⟨f, p, hsome, -, -, -, hinv⟩
    · rw [hnone] at hfst
      cases hfst
    · rw [hsome] at hfst
      cases hfst
      exact ⟨_, _, hinv⟩
  | @fetchPage_null p _ hp hfetch =>
    -- a page that has a frame is found, so this one has no pin count
    have hfit : s.pool.CountersFit (.fetchPage p) := fun f hf => by
      unfold DiskPool.fetchPage at hfetch
      rw [hf] at hfetch
      cases hfetch
    have hfit := hfit.ideal h.simulates
    obtain ⟨r, hrun, hres⟩ := h.fetchPage hp hfit
    obtain ⟨hfst, rfl⟩ := Prod.mk.inj (Except.ok.inj (hrun.symm.trans hfetch))
    rcases hres with ⟨-, hinv⟩ | ⟨f, hsome, -⟩
    · exact ⟨_, _, hinv⟩
    · rw [hsome] at hfst
      cases hfst
  | fetchPage hp hfit hfetch =>
    obtain ⟨r, hrun, hres⟩ := h.fetchPage hp (hfit.ideal h.simulates)
    obtain ⟨hfst, rfl⟩ := Prod.mk.inj (Except.ok.inj (hrun.symm.trans hfetch))
    rcases hres with ⟨hnone, -⟩ | ⟨f, hsome, -, hinv⟩
    · rw [hnone] at hfst
      cases hfst
    · rw [hsome] at hfst
      cases hfst
      exact ⟨_, _, hinv⟩
  | write i v hpin => exact ⟨_, _, h.overwrite hpin fun data => Function.update data i v⟩
  | unpinPage hpin hwrote => exact ⟨_, _, h.unpinPage hpin hwrote⟩
  | @unpinPage_idle p isDirty hidle =>
    have hsim := (h.simulates.unpinPage p isDirty).2
    rw [h.cache.unpinPage_idle hidle] at hsim
    exact ⟨_, _, h.congr hsim (.of_eq (DiskPool.unpinPage_diskManager _ _ _))⟩
  | deletePage hdel =>
    obtain ⟨ok, r, b', content', hrun, hinv⟩ := h.deletePage _
    obtain ⟨rfl, rfl⟩ := Prod.mk.inj (Except.ok.inj (hrun.symm.trans hdel))
    exact ⟨_, _, hinv⟩
  | flushPage hflush =>
    obtain ⟨ok, r, b', hrun, hinv⟩ := h.flushPage _
    obtain ⟨rfl, rfl⟩ := Prod.mk.inj (Except.ok.inj (hrun.symm.trans hflush))
    exact ⟨_, _, hinv⟩
  | flushAllPages hflush =>
    obtain ⟨r, hrun, -, hinv, -⟩ := h.flushAllPages
    obtain rfl := Except.ok.inj (hrun.symm.trans hflush)
    exact ⟨_, _, hinv⟩
  | restart poolSize k hflush => exact h.restart poolSize k hflush

theorem DiskCacheRun.inv {s : DiskCacheState} (h : DiskCacheRun s) :
    ∃ b content, DiskCacheInv s b content := by
  induction h with
  | create poolSize k => exact ⟨_, _, diskCacheInv_create poolSize k⟩
  | step _ hstep ih =>
    obtain ⟨b, content, hinv⟩ := ih
    exact hstep.inv hinv

/-- **The pool is a transparent cache of its file.** In every state that
disciplined clients reach, over any number of restarts: the bytes behind every
pin that is out are the contents of its page; as long as the counters fit, `FetchPage` of a live
page does not throw, and where it returns a frame finds the contents there, and `NewPage`
does not throw, and where it returns a page it is none of the live ones and all
zero; and no other call throws. -/
theorem diskCacheRun_transparent {s : DiskCacheState} (hrun : DiskCacheRun s) :
    (∀ pin ∈ s.pins, (s.pool.pages pin.frame).data = s.content pin.pageId) ∧
    (∀ p ∈ s.live, s.pool.CountersFit (.fetchPage p) →
      ∃ res r, s.pool.fetchPage p = .ok (res, r) ∧
        ∀ f, res = some f → (r.pages f).data = s.content p) ∧
    (s.pool.CountersFit .newPage → ∃ res r, s.pool.newPage = .ok (res, r) ∧
      ∀ f p, res = some (f, p) → p ∉ s.live ∧ (r.pages f).data = PageData.zero) ∧
    (∀ p, (∃ res, s.pool.deletePage p = .ok res) ∧ ∃ res, s.pool.flushPage p = .ok res) ∧
    ∃ r, s.pool.flushAllPages = .ok r := by
  obtain ⟨b, content, h⟩ := hrun.inv
  refine ⟨fun pin => h.data_eq, fun p hp hfit => ?_, fun hfit => ?_, fun p => ⟨?_, ?_⟩, ?_⟩
  · obtain ⟨r, hfetch, hres⟩ := h.fetchPage hp (hfit.ideal h.simulates)
    refine ⟨_, r, hfetch, fun f hf => ?_⟩
    rcases hres with ⟨hnone, -⟩ | ⟨f', hsome, -, hinv⟩
    · rw [hnone] at hf
      cases hf
    · obtain rfl : f' = f := Option.some.inj (hsome.symm.trans hf)
      exact hinv.data_eq (List.mem_cons_self (a := Pin.mk f' p false))
  · obtain ⟨r, hnew, hres⟩ := h.newPage (hfit.ideal h.simulates)
    refine ⟨_, r, hnew, fun f p hf => ?_⟩
    rcases hres with ⟨hnone, -⟩ | ⟨f', p', hsome, hnotlive, -, -, hinv⟩
    · rw [hnone] at hf
      cases hf
    · obtain ⟨rfl, rfl⟩ := Prod.mk.inj (Option.some.inj (hsome.symm.trans hf))
      refine ⟨hnotlive, ?_⟩
      have hzero := hinv.data_eq (List.mem_cons_self (a := Pin.mk f' p' true))
      simpa only [Function.update_self] using hzero
  · obtain ⟨ok, r, -, -, hdel, -⟩ := h.deletePage p
    exact ⟨_, hdel⟩
  · obtain ⟨ok, r, -, hflush, -⟩ := h.flushPage p
    exact ⟨_, hflush⟩
  · obtain ⟨r, hflush, -⟩ := h.flushAllPages
    exact ⟨r, hflush⟩

/-- One frame and two new pages, the first written: its frame was taken for the
second, and `FetchPage` would bring the byte back. -/
theorem diskCacheRun_transparent_evicted :
    ∃ s : DiskCacheState, DiskCacheRun s ∧ s.pool.pageTable.lookup 0 = none ∧
      ∃ res r, s.pool.fetchPage 0 = .ok (res, r) ∧
        ∀ f, res = some f → (r.pages f).data = Function.update PageData.zero ⟨0, by decide⟩ 1 := by
  have h₁ : DiskCacheRun _ := .step (.create 1 2)
    (.newPage (f := 0) (p := 0) (show (0 : Int) + 1 < 2 ^ 31 by decide) rfl)
  have h₂ := DiskCacheRun.step h₁ (.write ⟨0, by decide⟩ 1 List.mem_cons_self)
  have h₃ := DiskCacheRun.step h₂
    (@DiskCacheStep.unpinPage _ _ true List.mem_cons_self fun _ => rfl)
  have h₄ := DiskCacheRun.step h₃
    (.newPage (f := 0) (p := 1) (show (1 : Int) + 1 < 2 ^ 31 by decide) rfl)
  refine ⟨_, h₄, rfl, ?_⟩
  obtain ⟨res, r, hfetch, hdata⟩ :=
    (diskCacheRun_transparent h₄).2.1 0 (.inr (.inl rfl)) fun f hf => nomatch hf
  refine ⟨res, r, hfetch, fun f hf => (hdata f hf).trans ?_⟩
  simp

/-- **Flushed pages are durable.** After `FlushAllPages`, in every state that
disciplined clients reach, a new `DiskManager` on the file reads back the
contents of every live page, and hands out none of their ids. -/
theorem diskCacheRun_durable {s : DiskCacheState} (hrun : DiskCacheRun s) {r : DiskPool}
    (hflush : s.pool.flushAllPages = .ok r) :
    ∀ p ∈ s.live, p < (DiskManager.create r.diskManager.dbIo.file).nextPageId ∧
      ∀ buf, ∃ d, (DiskManager.create r.diskManager.dbIo.file).readPage p buf =
        .ok (d, s.content p) := by
  obtain ⟨b, content, h⟩ := hrun.inv
  obtain ⟨r', hflush', ⟨image, hholds, heq⟩, hinv, -, hfile, himage⟩ := h.flushAllPages
  obtain rfl : r' = r := Except.ok.inj (hflush'.symm.trans hflush)
  obtain ⟨hreopen, hnum⟩ := hholds.reopen
  intro p hp
  have hin : p < (DiskManager.create r'.diskManager.dbIo.file).numPages := hnum ▸ hfile p hp
  have hnext := hholds.reopen_next hinv.numPages_lt
  refine ⟨hnext ▸ hfile p hp, fun buf => ?_⟩
  obtain ⟨d, hread, -, -⟩ := hreopen.readPage (h.allocated p hp).1 hin buf
  have hpage : image p = s.content p := by
    rw [← himage p hp, heq]
    rfl
  exact ⟨d, hpage ▸ hread⟩

/-- A page written, flushed, and read back by a new manager of the file. -/
theorem diskCacheRun_durable_written :
    ∃ (s : DiskCacheState) (r : DiskPool), DiskCacheRun s ∧ s.pool.flushAllPages = .ok r ∧
      ∀ buf, ∃ d, (DiskManager.create r.diskManager.dbIo.file).readPage 0 buf =
        .ok (d, Function.update PageData.zero ⟨0, by decide⟩ 1) := by
  have h₁ : DiskCacheRun _ := .step (.create 1 2)
    (.newPage (f := 0) (p := 0) (show (0 : Int) + 1 < 2 ^ 31 by decide) rfl)
  have h₂ := DiskCacheRun.step h₁ (.write ⟨0, by decide⟩ 1 List.mem_cons_self)
  obtain ⟨b, content, hinv⟩ := h₂.inv
  obtain ⟨r, hflush, -⟩ := hinv.flushAllPages
  refine ⟨_, r, h₂, hflush, fun buf => ?_⟩
  obtain ⟨d, hread⟩ := (diskCacheRun_durable h₂ hflush 0 (.inl rfl)).2 buf
  refine ⟨d, hread.trans ?_⟩
  simp only [Function.update_self]

end OneBase
