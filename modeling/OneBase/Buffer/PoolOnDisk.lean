import OneBase.Buffer.TransparentCache

/-!
# The pool over the file

`BufferPoolManager` has an ideal disk under it, a map from page ids to
contents. Here the pool calls the `DiskManager` itself, whose stream does not
recover from a read past the end of the file.

- `DiskPool`: the methods of `buffer_pool_manager.cpp`, with every `WritePage`
  and `ReadPage` a call that may throw.
- `DiskPool.ideal`, `DiskPool.Simulates`: the pool over the ideal disk it
  stands for while the stream is good.
- `Simulates.acquireFrame`, …, `Simulates.flushAllPages`: one lemma a method.
  Only a `FetchPage` that misses has a condition: the page is inside the file.
-/

namespace OneBase

open Cpp

/-- The buffer pool with its `disk_manager_`
(`buffer/buffer_pool_manager.h`). -/
structure DiskPool where
  poolSize : Nat
  diskManager : DiskManager
  replacer : LRUKReplacer
  pages : FrameId → Page
  pageTable : AList (fun _ : PageId => FrameId)
  freeList : List FrameId

namespace DiskPool

/-- The constructor (buffer_pool_manager.cpp:8–15). -/
def create (poolSize : Nat) (diskManager : DiskManager) (replacerK : Nat) : DiskPool where
  poolSize := poolSize
  diskManager := diskManager
  replacer := LRUKReplacer.create poolSize replacerK
  pages := fun _ => {}
  pageTable := ∅
  freeList := (List.range poolSize).map fun i : Nat => (i : FrameId)

/-- The frame `f` after the update `u`. -/
def modifyPage (b : DiskPool) (f : FrameId) (u : Page → Page) : DiskPool :=
  { b with pages := Function.update b.pages f (u (b.pages f)) }

/-- Take a frame for a new resident page (buffer_pool_manager.cpp:22–34, 64–76). -/
def acquireFrame (b : DiskPool) : Except String (Option FrameId × DiskPool) :=
  match b.freeList with
  | frameId :: rest => .ok (some frameId, { b with freeList := rest })
  | [] =>
    match b.replacer.evict with
    | (none, _) => .ok (none, b)
    | (some frameId, replacer) => do
      let victim := b.pages frameId
      let diskManager ←
        if victim.isDirty then b.diskManager.writePage victim.pageId victim.data
        else .ok b.diskManager
      return (some frameId, { b with
        replacer := replacer
        diskManager := diskManager
        pageTable := b.pageTable.erase victim.pageId })

/-- Put page `pageId` with the given contents into `frameId`, pinned once
(buffer_pool_manager.cpp:37–45, 78–87). -/
def installPage (b : DiskPool) (frameId : FrameId) (pageId : PageId) (data : PageData) :
    DiskPool :=
  { b with
    pages := Function.update b.pages frameId
      { data := data, pageId := pageId, pinCount := 1, isDirty := false }
    pageTable := b.pageTable.insert pageId frameId
    replacer := (b.replacer.recordAccess frameId).setEvictable frameId false }

/-- Model of `NewPage` (buffer_pool_manager.cpp:19–48). -/
def newPage (b : DiskPool) : Except String (Option (FrameId × PageId) × DiskPool) := do
  match ← b.acquireFrame with
  | (none, b) => return (none, b)
  | (some frameId, b) =>
    let (pageId, diskManager) := b.diskManager.allocatePage
    return (some (frameId, pageId),
      { b with diskManager := diskManager }.installPage frameId pageId PageData.zero)

/-- Model of `FetchPage` (buffer_pool_manager.cpp:50–90). -/
def fetchPage (b : DiskPool) (pageId : PageId) : Except String (Option FrameId × DiskPool) :=
  match b.pageTable.lookup pageId with
  | some frameId =>
    let b := b.modifyPage frameId fun page => { page with pinCount := int32 (page.pinCount + 1) }
    .ok (some frameId, { b with
      replacer := (b.replacer.recordAccess frameId).setEvictable frameId false })
  | none => do
    match ← b.acquireFrame with
    | (none, b) => return (none, b)
    | (some frameId, b) =>
      -- the frame was reset, so the buffer the stream reads into is all zero
      let (diskManager, data) ← b.diskManager.readPage pageId PageData.zero
      return (some frameId,
        { b with diskManager := diskManager }.installPage frameId pageId data)

/-- Model of `UnpinPage` (buffer_pool_manager.cpp:92–117). -/
def unpinPage (b : DiskPool) (pageId : PageId) (isDirty : Bool) : Bool × DiskPool :=
  match b.pageTable.lookup pageId with
  | none => (false, b)
  | some frameId =>
    if (b.pages frameId).pinCount ≤ 0 then (false, b)
    else
      let b := b.modifyPage frameId fun page =>
        { page with isDirty := page.isDirty || isDirty, pinCount := page.pinCount - 1 }
      if (b.pages frameId).pinCount = 0 then
        (true, { b with replacer := b.replacer.setEvictable frameId true })
      else (true, b)

/-- Model of `DeletePage` (buffer_pool_manager.cpp:119–143); `DeallocatePage` does nothing. -/
def deletePage (b : DiskPool) (pageId : PageId) : Except String (Bool × DiskPool) :=
  match b.pageTable.lookup pageId with
  | none => .ok (true, b)
  | some frameId =>
    if (b.pages frameId).pinCount > 0 then .ok (false, b)
    else do
      let replacer ← b.replacer.remove frameId
      let b := { b with pageTable := b.pageTable.erase pageId, replacer := replacer }
      let b := b.modifyPage frameId fun page =>
        { page with data := PageData.zero, pageId := invalidPageId, isDirty := false }
      return (true, { b with freeList := b.freeList ++ [frameId] })

/-- The body of the loop in `FlushAllPages` (buffer_pool_manager.cpp:165–169),
which `FlushPage` runs once. -/
def flushEntry (b : DiskPool) (e : Sigma fun _ : PageId => FrameId) :
    Except String DiskPool := do
  let diskManager ← b.diskManager.writePage e.1 (b.pages e.2).data
  return { b with diskManager := diskManager }.modifyPage e.2
    fun page => { page with isDirty := false }

/-- Model of `FlushPage` (buffer_pool_manager.cpp:145–160). -/
def flushPage (b : DiskPool) (pageId : PageId) : Except String (Bool × DiskPool) :=
  match b.pageTable.lookup pageId with
  | none => .ok (false, b)
  | some frameId => do
    let b ← b.flushEntry ⟨pageId, frameId⟩
    return (true, b)

/-- Model of `FlushAllPages` (buffer_pool_manager.cpp:162–170). -/
def flushAllPages (b : DiskPool) : Except String DiskPool :=
  b.pageTable.entries.foldlM flushEntry b

/-! ## The pool it stands for -/

/-- The same pool over an ideal disk with the given contents. -/
def ideal (b : DiskPool) (image : DiskImage) : BufferPoolManager where
  poolSize := b.poolSize
  disk := ⟨image, b.diskManager.nextPageId⟩
  replacer := b.replacer
  pages := b.pages
  pageTable := b.pageTable
  freeList := b.freeList

/-- The stream is good, the file has the pages of the ideal disk, and the rest
of the two pools is the same. -/
def Simulates (r : DiskPool) (b : BufferPoolManager) : Prop :=
  ∃ image, r.diskManager.Holds image ∧ b = r.ideal image

theorem Simulates.same {r : DiskPool} {b : BufferPoolManager} (h : r.Simulates b) :
    r.pages = b.pages ∧ r.poolSize = b.poolSize ∧
      r.diskManager.nextPageId = b.disk.nextPageId := by
  obtain ⟨image, -, rfl⟩ := h
  exact ⟨rfl, rfl, rfl⟩

/-- The file grows, and never past the ids handed out. -/
structure Grows (r r' : DiskPool) (next : PageId) : Prop where
  le : r.diskManager.numPages ≤ r'.diskManager.numPages
  bound : r'.diskManager.numPages ≤ max r.diskManager.numPages next.toNat

theorem Grows.of_eq {r r' : DiskPool} {next : PageId} (h : r'.diskManager = r.diskManager) :
    Grows r r' next := by
  constructor <;> rw [h]
  exact Nat.le_max_left _ _

theorem Grows.trans {r r' r'' : DiskPool} {next : PageId} (h : Grows r r' next)
    (h' : Grows r' r'' next) : Grows r r'' next := by
  have h₁ := h.le
  have h₂ := h.bound
  have h₃ := h'.le
  have h₄ := h'.bound
  constructor <;> omega

/-! ## One lemma a method -/

section Simulation

variable {r : DiskPool} {b : BufferPoolManager}

theorem toNat_succ_le {p q : Int} (h0 : 0 ≤ p) (h : p < q) : p.toNat + 1 ≤ q.toNat := by
  omega

theorem lt_toNat_succ (p : Int) : p < ((p.toNat + 1 : Nat) : Int) := by
  omega

theorem writePage_nextPageId {d d' : DiskManager} {p : PageId} {data : PageData}
    (h : d.writePage p data = .ok d') : d'.nextPageId = d.nextPageId := by
  unfold DiskManager.writePage at h
  dsimp only at h
  split at h
  · cases h
  · exact (Except.ok.inj h) ▸ rfl

theorem readPage_nextPageId {d d' : DiskManager} {p : PageId} {buf data : PageData}
    (h : d.readPage p buf = .ok (d', data)) : d'.nextPageId = d.nextPageId := by
  unfold DiskManager.readPage at h
  dsimp only at h
  split at h
  · cases h
  · exact (Prod.mk.inj (Except.ok.inj h)).1 ▸ rfl

/-- Writing back an allocated page: the ideal disk is written, the stream stays
good, and the page is inside the file afterwards. -/
theorem Simulates.writePage (h : r.Simulates b) {p : PageId} (hp : b.Allocated p)
    (data : PageData) :
    ∃ d, r.diskManager.writePage p data = .ok d ∧
      { r with diskManager := d }.Simulates { b with disk := b.disk.writePage p data } ∧
      Grows r { r with diskManager := d } b.disk.nextPageId ∧ p < d.numPages := by
  obtain ⟨image, hholds, rfl⟩ := h
  obtain ⟨d, hwrite, hd, hnum⟩ := hholds.writePage hp.1 data
  refine ⟨d, hwrite, ⟨_, hd, ?_⟩, ⟨hnum ▸ Nat.le_max_left _ _, ?_⟩, ?_⟩
  · simp only [ideal, Disk.writePage, writePage_nextPageId hwrite]
  · show d.numPages ≤ max r.diskManager.numPages (Int.toNat r.diskManager.nextPageId)
    rw [hnum]
    exact Nat.max_le.mpr ⟨Nat.le_max_left _ _,
      Nat.le_trans (toNat_succ_le hp.1 hp.2) (Nat.le_max_right _ _)⟩
  · rw [hnum]
    exact Int.lt_of_lt_of_le (lt_toNat_succ p) (Int.ofNat_le.mpr (Nat.le_max_right _ _))

/-- **Taking a frame.** The same frame is taken; a dirty victim is in the file
afterwards. -/
theorem Simulates.acquireFrame (h : r.Simulates b) (hb : b.PoolInv none) :
    ∃ r', r.acquireFrame = .ok (b.acquireFrame.1, r') ∧ r'.Simulates b.acquireFrame.2 ∧
      Grows r r' b.disk.nextPageId ∧
      ∀ p f, b.acquireFrame.1 = some f → b.pageTable.lookup p = some f →
        (b.pages f).isDirty = true → p < r'.diskManager.numPages := by
  obtain ⟨image, hholds, heq⟩ := id h
  have hfree : r.freeList = b.freeList := by rw [heq]; rfl
  have hrep : r.replacer = b.replacer := by rw [heq]; rfl
  have hpages : r.pages = b.pages := by rw [heq]; rfl
  unfold DiskPool.acquireFrame BufferPoolManager.acquireFrame
  rw [hfree, hrep, hpages]
  cases hlist : b.freeList with
  | cons f rest =>
    refine ⟨_, rfl, ⟨image, hholds, by rw [heq]; rfl⟩, Grows.of_eq rfl, fun p g hg hp _ => ?_⟩
    -- a free frame holds no page
    obtain rfl : f = g := Option.some.inj hg
    exact absurd ⟨p, hp⟩ (hb.free_unmapped f (hlist ▸ List.mem_cons_self))
  | nil =>
    rcases b.replacer.evict_spec hb.neg_one_untracked with ⟨hev, -⟩ | ⟨f, e, he, -, hres⟩
    · simp only [hev]
      exact ⟨r, rfl, h, Grows.of_eq rfl, fun p g hg => nomatch hg⟩
    · obtain ⟨p, hp⟩ := (hb.tracked f).mp ⟨e, he⟩
      have hpage := hb.pageId p f hp
      have honly : ∀ q, b.pageTable.lookup q = some f → q = p := fun q hq => hb.injective hq hp
      simp only [hres]
      cases hdirty : (b.pages f).isDirty with
      | false =>
        refine ⟨_, rfl, ⟨image, hholds, by rw [heq]; rfl⟩, Grows.of_eq rfl, fun q g hg hq hd => ?_⟩
        obtain rfl : f = g := Option.some.inj hg
        rw [hdirty] at hd
        cases hd
      | true =>
        obtain ⟨d, hwrite, ⟨image', hd, heq'⟩, hgrows, hlt⟩ :=
          h.writePage (hb.allocated p f hp) (b.pages f).data
        simp only [if_true, hpage, hwrite]
        refine ⟨_, rfl, ⟨image', hd, ?_⟩, ⟨hgrows.le, hgrows.bound⟩, fun q g hg hq _ => ?_⟩
        · have hdisk := congrArg BufferPoolManager.disk heq'
          subst heq
          simp only [ideal] at hdisk hlist ⊢
          rw [hdisk]
        · obtain rfl : f = g := Option.some.inj hg
          exact honly q hq ▸ hlt

/-- `NewPage` gives the same frame and page id. -/
theorem Simulates.newPage (h : r.Simulates b) (hb : b.PoolInv none) :
    ∃ r', r.newPage = .ok (b.newPage.1, r') ∧ r'.Simulates b.newPage.2 ∧
      Grows r r' b.disk.nextPageId ∧
      ∀ p f, b.acquireFrame.1 = some f → b.pageTable.lookup p = some f →
        (b.pages f).isDirty = true → p < r'.diskManager.numPages := by
  obtain ⟨r₁, hacq, ⟨image, hholds, heq⟩, hgrows, hvictim⟩ := h.acquireFrame hb
  unfold DiskPool.newPage BufferPoolManager.newPage
  simp only [hacq, bind, Except.bind, pure, Except.pure]
  rcases hb' : b.acquireFrame with ⟨_ | f, b₁⟩
  · rw [hb'] at heq
    exact ⟨r₁, rfl, ⟨image, hholds, heq⟩, hgrows, fun p g hg => nomatch hg⟩
  · rw [hb'] at heq hvictim
    obtain rfl : b₁ = r₁.ideal image := heq
    refine ⟨_, rfl, ⟨image, ⟨hholds.good, hholds.length, hholds.page⟩, rfl⟩,
      ⟨hgrows.le, hgrows.bound⟩, hvictim⟩

/-- `FetchPage` of a page that is resident, or inside the file, gives the same
frame with the same bytes. -/
theorem Simulates.fetchPage (h : r.Simulates b) (hb : b.PoolInv none) {p : PageId}
    (h0 : 0 ≤ p)
    (hin : b.pageTable.lookup p = none → p < r.diskManager.numPages) :
    ∃ r', r.fetchPage p = .ok ((b.fetchPage p).1, r') ∧ r'.Simulates (b.fetchPage p).2 ∧
      Grows r r' b.disk.nextPageId ∧
      (b.pageTable.lookup p = none → ∀ q f, b.acquireFrame.1 = some f →
        b.pageTable.lookup q = some f → (b.pages f).isDirty = true →
          q < r'.diskManager.numPages) := by
  obtain ⟨image, hholds, heq⟩ := id h
  have htable : r.pageTable = b.pageTable := by rw [heq]; rfl
  unfold DiskPool.fetchPage BufferPoolManager.fetchPage
  rw [htable]
  cases hp : b.pageTable.lookup p with
  | some f =>
    refine ⟨_, rfl, ⟨image, hholds, ?_⟩, .of_eq rfl, fun hnone => nomatch hnone⟩
    rw [heq]
    rfl
  | none =>
    obtain ⟨r₁, hacq, ⟨image₁, hholds₁, heq₁⟩, hgrows, hvictim⟩ := h.acquireFrame hb
    simp only [hacq, bind, Except.bind, pure, Except.pure]
    rcases hb' : b.acquireFrame with ⟨_ | f, b₁⟩
    · rw [hb'] at heq₁
      exact ⟨r₁, rfl, ⟨image₁, hholds₁, heq₁⟩, hgrows, fun _ q g hg => nomatch hg⟩
    · rw [hb'] at heq₁ hvictim
      obtain rfl : b₁ = r₁.ideal image₁ := heq₁
      have hin₁ : p < r₁.diskManager.numPages :=
        Int.lt_of_lt_of_le (hin hp) (Int.ofNat_le.mpr hgrows.le)
      obtain ⟨d, hread, hd, hnum⟩ := hholds₁.readPage h0 hin₁ PageData.zero
      simp only [hread]
      refine ⟨_, rfl, ⟨image₁, hd, ?_⟩, ⟨?_, ?_⟩, fun _ q g hg hq hdirty => ?_⟩
      · simp only [ideal, BufferPoolManager.installPage, DiskPool.installPage,
          readPage_nextPageId hread]
      · exact hnum ▸ hgrows.le
      · exact hnum ▸ hgrows.bound
      · show q < d.numPages
        exact hnum ▸ hvictim q g hg hq hdirty

theorem ideal_unpinPage (r : DiskPool) (image : DiskImage) (p : PageId) (isDirty : Bool) :
    (r.ideal image).unpinPage p isDirty =
      ((r.unpinPage p isDirty).1, (r.unpinPage p isDirty).2.ideal image) := by
  simp only [BufferPoolManager.unpinPage, DiskPool.unpinPage, ideal]
  cases r.pageTable.lookup p with
  | none => rfl
  | some f =>
    dsimp only
    by_cases hpin : (r.pages f).pinCount ≤ 0
    · simp only [hpin, if_true]
    · simp only [hpin, if_false, BufferPoolManager.modifyPage, DiskPool.modifyPage]
      by_cases hzero :
          (Function.update r.pages f { r.pages f with
            isDirty := (r.pages f).isDirty || isDirty
            pinCount := (r.pages f).pinCount - 1 } f).pinCount = 0
      · simp only [hzero, if_true]
      · simp only [hzero, if_false]

theorem unpinPage_diskManager (r : DiskPool) (p : PageId) (isDirty : Bool) :
    (r.unpinPage p isDirty).2.diskManager = r.diskManager := by
  unfold DiskPool.unpinPage
  split
  · rfl
  · split
    · rfl
    · dsimp only
      split <;> rfl

/-- `UnpinPage` does not touch the disk. -/
theorem Simulates.unpinPage (h : r.Simulates b) (p : PageId) (isDirty : Bool) :
    (r.unpinPage p isDirty).1 = (b.unpinPage p isDirty).1 ∧
      (r.unpinPage p isDirty).2.Simulates (b.unpinPage p isDirty).2 := by
  obtain ⟨image, hholds, rfl⟩ := h
  rw [ideal_unpinPage]
  refine ⟨rfl, image, ?_, rfl⟩
  rw [unpinPage_diskManager]
  exact hholds

/-- Neither does `DeletePage`: it forgets the frame, and throws when the pool
over the ideal disk does. -/
theorem ideal_deletePage (r : DiskPool) (image : DiskImage) (p : PageId) :
    (r.ideal image).deletePage p =
      (fun a : Bool × DiskPool => (a.1, a.2.ideal image)) <$> r.deletePage p := by
  simp only [BufferPoolManager.deletePage, DiskPool.deletePage, ideal]
  cases r.pageTable.lookup p with
  | none => rfl
  | some f =>
    dsimp only
    by_cases hpin : (r.pages f).pinCount > 0
    · simp only [hpin, if_true]
      rfl
    · simp only [hpin, if_false]
      cases r.replacer.remove f <;> rfl

theorem deletePage_diskManager {r r' : DiskPool} {p : PageId} {ok : Bool}
    (h : r.deletePage p = .ok (ok, r')) : r'.diskManager = r.diskManager := by
  unfold DiskPool.deletePage at h
  split at h
  · exact (Prod.mk.inj (Except.ok.inj h)).2 ▸ rfl
  · split at h
    · exact (Prod.mk.inj (Except.ok.inj h)).2 ▸ rfl
    · rename_i f _ _
      cases hrem : r.replacer.remove f with
      | error e => simp [hrem, bind, Except.bind] at h
      | ok a =>
        simp only [hrem, bind, Except.bind, pure, Except.pure] at h
        exact (Prod.mk.inj (Except.ok.inj h)).2 ▸ rfl

/-- `DeletePage` answers the same. -/
theorem Simulates.deletePage (h : r.Simulates b) {p : PageId} {ok : Bool}
    {b' : BufferPoolManager} (hdel : b.deletePage p = .ok (ok, b')) :
    ∃ r', r.deletePage p = .ok (ok, r') ∧ r'.Simulates b' ∧
      r'.diskManager = r.diskManager := by
  obtain ⟨image, hholds, rfl⟩ := h
  rw [ideal_deletePage] at hdel
  cases hrun : r.deletePage p with
  | error e =>
    rw [hrun] at hdel
    cases hdel
  | ok a =>
    rw [hrun] at hdel
    obtain ⟨rfl, rfl⟩ := Prod.mk.inj (Except.ok.inj hdel)
    have hsame := deletePage_diskManager hrun
    exact ⟨a.2, rfl, ⟨image, hsame ▸ hholds, rfl⟩, hsame⟩

/-- Writing one resident page back puts it inside the file. -/
theorem Simulates.flushEntry (h : r.Simulates b) {p : PageId} {f : FrameId}
    (hp : b.Allocated p) :
    ∃ r', r.flushEntry ⟨p, f⟩ = .ok r' ∧ r'.Simulates (b.flushEntry ⟨p, f⟩) ∧
      Grows r r' b.disk.nextPageId ∧ p < r'.diskManager.numPages := by
  obtain ⟨image, hholds, heq⟩ := id h
  have hpages : r.pages = b.pages := by rw [heq]; rfl
  obtain ⟨d, hwrite, ⟨image', hd, heq'⟩, hgrows, hlt⟩ := h.writePage hp (b.pages f).data
  have hdisk := congrArg BufferPoolManager.disk heq'
  unfold DiskPool.flushEntry BufferPoolManager.flushEntry
  simp only [hpages, hwrite, bind, Except.bind, pure, Except.pure]
  refine ⟨_, rfl, ⟨image', hd, ?_⟩, ⟨hgrows.le, hgrows.bound⟩, hlt⟩
  subst heq
  simp only [ideal, BufferPoolManager.modifyPage, DiskPool.modifyPage] at hdisk ⊢
  rw [hdisk]

/-- Writing resident pages back puts every one of them inside the file. -/
theorem Simulates.flushEntries (l : List (Sigma fun _ : PageId => FrameId)) :
    ∀ {r : DiskPool} {b : BufferPoolManager}, r.Simulates b → (∀ e ∈ l, b.Allocated e.1) →
      ∃ r', l.foldlM DiskPool.flushEntry r = .ok r' ∧
        r'.Simulates (l.foldl BufferPoolManager.flushEntry b) ∧
        Grows r r' b.disk.nextPageId ∧ ∀ e ∈ l, e.1 < r'.diskManager.numPages := by
  induction l with
  | nil =>
    intro r b h _
    exact ⟨r, rfl, h, .of_eq rfl, fun e he => absurd he List.not_mem_nil⟩
  | cons e l ih =>
    intro r b h hl
    obtain ⟨r₁, hone, h₁, hgrows, hlt⟩ :=
      h.flushEntry (p := e.1) (f := e.2) (hl e List.mem_cons_self)
    obtain ⟨r₂, hrest, h₂, hgrows', hlt'⟩ :=
      ih h₁ fun e' he' => hl e' (List.mem_cons_of_mem _ he')
    refine ⟨r₂, ?_, h₂, hgrows.trans hgrows', fun e' he' => ?_⟩
    · rw [List.foldlM_cons, hone]
      exact hrest
    · rcases List.mem_cons.mp he' with rfl | he'
      · exact Int.lt_of_lt_of_le hlt (Int.ofNat_le.mpr hgrows'.le)
      · exact hlt' e' he'

/-- **`FlushAllPages`** never throws, and every resident page is in the file. -/
theorem Simulates.flushAllPages (h : r.Simulates b) (hb : b.PoolInv none) :
    ∃ r', r.flushAllPages = .ok r' ∧ r'.Simulates b.flushAllPages ∧
      Grows r r' b.disk.nextPageId ∧
      ∀ p f, b.pageTable.lookup p = some f → p < r'.diskManager.numPages := by
  obtain ⟨image, hholds, heq⟩ := id h
  have htable : r.pageTable = b.pageTable := by rw [heq]; rfl
  obtain ⟨r', hrun, h', hgrows, hlt⟩ := Simulates.flushEntries b.pageTable.entries h
    fun e he => hb.allocated e.1 e.2 (AList.mem_lookup_iff.mpr he)
  refine ⟨r', ?_, h', hgrows, fun p f hp => hlt ⟨p, f⟩ (AList.mem_lookup_iff.mp hp)⟩
  rw [DiskPool.flushAllPages, htable]
  exact hrun

end Simulation

end DiskPool

end OneBase
