import OneBase.Buffer.Durability
import OneBase.Buffer.PoolFailures
import OneBase.Storage.PageStore

/-!
# Clients of the pool as programs

A client of the pool is a sequence of `NewPage`, `FetchPage` and `UnpinPage`
calls with reads and writes through the pointers in between; what it does next
depends on the answers. Here such a client is a tree of requests, run on the
pool over the file and on a `PageStore` that never runs out of frames.

- `PageProg`: the clients.
- `PageProg.runPool`, `PageProg.runStore`: the two runs.
- `PageProg.Ok`: on a store, the client has at most `n` pins, on pages that
  exist, unpins what it wrote with `is_dirty = true`, and keeps page ids below `2^31`.
- `Mirrors`: the store has the contents of the pool's pages.
- `PageProg.runPool_eq`: with `n` frames that others do not hold, the run on
  the pool gives the answer of the run on the store.
-/

namespace OneBase

open BufferPoolManager

/-- Pages of a type `P` in the bytes of a frame: the two directions of the
`reinterpret_cast` of `GetData()`. -/
structure PageCodec (P : Type) where
  toPage : P → PageData
  ofPage : PageData → P
  toPage_ofPage : ∀ data, toPage (ofPage data) = data

/-- A client of the pool. A null page is `none`. -/
inductive PageProg (P α : Type) where
  | done (a : α)
  | newPage (next : Option PageId → PageProg P α)
  | fetchPage (p : PageId) (next : Option P → PageProg P α)
  | setPage (p : PageId) (page : P) (next : PageProg P α)
  | unpinPage (p : PageId) (isDirty : Bool) (next : PageProg P α)

namespace PageProg

variable {P α : Type}

/-- The run on the pool. `ptr p` is the pointer that `NewPage` or `FetchPage`
returned for page `p`. -/
def runPool (codec : PageCodec P) :
    PageProg P α → (PageId → FrameId) → DiskPool → Except String (α × DiskPool)
  | done a, _, b => .ok (a, b)
  | newPage next, ptr, b => do
    match ← b.newPage with
    | (none, b) => (next none).runPool codec ptr b
    | (some (f, p), b) => (next (some p)).runPool codec (Function.update ptr p f) b
  | fetchPage p next, ptr, b => do
    match ← b.fetchPage p with
    | (none, b) => (next none).runPool codec ptr b
    | (some f, b) =>
      (next (some (codec.ofPage (b.pages f).data))).runPool codec (Function.update ptr p f) b
  | setPage p page next, ptr, b =>
    next.runPool codec ptr (b.modifyPage (ptr p) fun frame =>
      { frame with data := codec.toPage page })
  | unpinPage p isDirty next, ptr, b => next.runPool codec ptr (b.unpinPage p isDirty).2

/-- The run on a store: every page is found. -/
def runStore (zero : P) : PageProg P α → PageStore P → α × PageStore P
  | done a, s => (a, s)
  | newPage next, s => (next (some (s.newPage zero).1)).runStore zero (s.newPage zero).2
  | fetchPage p next, s => (next (some (s.fetchPage p).1)).runStore zero (s.fetchPage p).2
  | setPage p page next, s => next.runStore zero (s.setPage p page)
  | unpinPage p _ next, s => next.runStore zero (s.unpinPage p)

/-- On the store, the client keeps to the discipline of the pool. `pins` are the
pages it holds, each with whether it was written; a new page counts as written. -/
def Ok (codec : PageCodec P) (n : Nat) :
    PageProg P α → PageStore P → List (PageId × Bool) → Prop
  | done _, _, pins => pins = []
  | newPage next, s, pins =>
    pins.length < n ∧ s.nextPageId + 1 < 2 ^ 31 ∧
      (next (some s.nextPageId)).Ok codec n (s.newPage (codec.ofPage PageData.zero)).2
        ((s.nextPageId, true) :: pins)
  | fetchPage p next, s, pins =>
    (0 ≤ p ∧ p < s.nextPageId) ∧ pins.length < n ∧
      (next (some (s.pages p))).Ok codec n (s.pinPage p) ((p, false) :: pins)
  | setPage p page next, s, pins =>
    codec.ofPage (codec.toPage page) = page ∧ ∃ wrote, (p, wrote) ∈ pins ∧
      next.Ok codec n (s.setPage p page) ((p, true) :: pins.erase (p, wrote))
  | unpinPage p isDirty next, s, pins =>
    ∃ wrote, (p, wrote) ∈ pins ∧ (wrote = true → isDirty = true) ∧
      next.Ok codec n (s.unpinPage p) (pins.erase (p, wrote))

/-- One client, and another that goes on with its answer. -/
def bind {β : Type} : PageProg P α → (α → PageProg P β) → PageProg P β
  | done a, k => k a
  | newPage next, k => newPage fun r => (next r).bind k
  | fetchPage p next, k => fetchPage p fun r => (next r).bind k
  | setPage p page next, k => setPage p page (next.bind k)
  | unpinPage p isDirty next, k => unpinPage p isDirty (next.bind k)

theorem runStore_bind {β : Type} (zero : P) (prog : PageProg P α) (k : α → PageProg P β)
    (s : PageStore P) :
    (prog.bind k).runStore zero s =
      (k (prog.runStore zero s).1).runStore zero (prog.runStore zero s).2 := by
  induction prog generalizing s with
  | done a => rfl
  | newPage next ih => exact ih _ _
  | fetchPage p next ih => exact ih _ _
  | setPage p page next ih => exact ih _
  | unpinPage p isDirty next ih => exact ih _

/-- The first client gives every page back, so the second may start. -/
theorem Ok.bind {β : Type} {codec : PageCodec P} {n : Nat} {prog : PageProg P α}
    {k : α → PageProg P β} {s : PageStore P} {pins : List (PageId × Bool)}
    (h : prog.Ok codec n s pins)
    (hk : (k (prog.runStore (codec.ofPage PageData.zero) s).1).Ok codec n
      (prog.runStore (codec.ofPage PageData.zero) s).2 []) : (prog.bind k).Ok codec n s pins := by
  induction prog generalizing s pins with
  | done a =>
    obtain rfl : pins = [] := h
    exact hk
  | newPage next ih => exact ⟨h.1, h.2.1, ih _ h.2.2 hk⟩
  | fetchPage p next ih => exact ⟨h.1, h.2.1, ih _ h.2.2 hk⟩
  | setPage p page next ih =>
    obtain ⟨hpage, wrote, hp, hnext⟩ := h
    exact ⟨hpage, wrote, hp, ih hnext hk⟩
  | unpinPage p isDirty next ih =>
    obtain ⟨wrote, hp, hwrote, hnext⟩ := h
    exact ⟨wrote, hp, hwrote, ih hnext hk⟩

end PageProg

/-- The store has the contents of the live pages, which are all that were made. -/
structure Mirrors {P : Type} (codec : PageCodec P) (s : DiskCacheState) (store : PageStore P) :
    Prop where
  next : store.nextPageId = s.pool.diskManager.nextPageId
  live : ∀ p, p ∈ s.live ↔ 0 ≤ p ∧ p < store.nextPageId
  pages : ∀ p ∈ s.live, store.pages p = codec.ofPage (s.content p)

/-! ## Frames -/

/-- The pins of a client, with the pointers it has. -/
def pinsOf (ptr : PageId → FrameId) (pins : List (PageId × Bool)) : List Pin :=
  pins.map fun e => ⟨ptr e.1, e.1, e.2⟩

/-- **A frame is left** while fewer pages are pinned than there are frames. -/
theorem CacheInv.not_allPinned {s : CacheState} (h : CacheInv s)
    (hlt : s.pins.length < s.pool.poolSize) : ¬ s.pool.AllPinned := by
  intro hall
  -- every frame holds a page somebody has pinned, so it is the frame of a pin
  have hsubset : ((List.range s.pool.poolSize).map fun i : Nat => (i : FrameId)) ⊆
      s.pins.map Pin.frame := by
    intro f hf
    obtain ⟨i, hi, rfl⟩ := List.mem_map.mp hf
    have hpin := hall i ⟨Int.natCast_nonneg i, Int.ofNat_lt.mpr (List.mem_range.mp hi)⟩
    obtain ⟨p, hp⟩ := h.pool.pinned_mapped i hpin
    rw [h.count p i hp] at hpin
    obtain ⟨pin, hmem, hpage⟩ := List.countP_pos_iff.mp (Int.natCast_pos.mp hpin)
    obtain rfl : pin.pageId = p := by simpa using hpage
    exact List.mem_map.mpr ⟨pin, hmem, Option.some.inj ((h.pinned pin hmem).symm.trans hp)⟩
  have hnodup : ((List.range s.pool.poolSize).map fun i : Nat => (i : FrameId)).Nodup :=
    List.nodup_range.map fun i j hij => Int.ofNat.inj hij
  have hle := (List.subperm_of_subset hnodup hsubset).length_le
  rw [List.length_map, List.length_map, List.length_range] at hle
  omega

/-- The pin that a client unpins or writes through. -/
theorem erase_pinsOf (ptr : PageId → FrameId) {pins : List (PageId × Bool)} (out : List Pin)
    {e : PageId × Bool} (he : e ∈ pins) :
    (pinsOf ptr pins ++ out).erase ⟨ptr e.1, e.1, e.2⟩ = pinsOf ptr (pins.erase e) ++ out := by
  have hinj : Function.Injective fun e : PageId × Bool => (⟨ptr e.1, e.1, e.2⟩ : Pin) := by
    intro a b hab
    exact Prod.ext (Pin.mk.inj hab).2.1 (Pin.mk.inj hab).2.2
  have hmem : (⟨ptr e.1, e.1, e.2⟩ : Pin) ∈ pinsOf ptr pins := List.mem_map.mpr ⟨e, he, rfl⟩
  rw [List.erase_append_left _ hmem]
  exact congrArg (· ++ out) (List.map_erase hinj pins).symm

/-- A pointer that was just returned is the pointer every pin on the page has. -/
theorem pinsOf_update {b : BufferPoolManager} {content : PageId → PageData}
    {ptr : PageId → FrameId} {pins : List (PageId × Bool)} {out : List Pin} {f : FrameId}
    {p : PageId} {wrote : Bool}
    (h : CacheInv ⟨b, ⟨f, p, wrote⟩ :: (pinsOf ptr pins ++ out), content⟩) :
    pinsOf (Function.update ptr p f) ((p, wrote) :: pins) = ⟨f, p, wrote⟩ :: pinsOf ptr pins := by
  have hself : b.pageTable.lookup p = some f := h.pinned ⟨f, p, wrote⟩ List.mem_cons_self
  have hptr : ∀ e ∈ pins, Function.update ptr p f e.1 = ptr e.1 := by
    intro e he
    by_cases hep : e.1 = p
    · have hmem : (⟨ptr e.1, e.1, e.2⟩ : Pin) ∈ pinsOf ptr pins := List.mem_map.mpr ⟨e, he, rfl⟩
      have hpin := h.pinned ⟨ptr e.1, e.1, e.2⟩
        (List.mem_cons_of_mem _ (List.mem_append_left _ hmem))
      have hpin' : b.pageTable.lookup e.1 = some (ptr e.1) := hpin
      rw [hep] at hpin' ⊢
      rw [Function.update_self]
      exact Option.some.inj (hself.symm.trans hpin')
    · exact Function.update_of_ne hep _ _
  have hrest : pinsOf (Function.update ptr p f) pins = pinsOf ptr pins :=
    List.map_congr_left fun e he => by rw [hptr e he]
  show ⟨Function.update ptr p f p, p, wrote⟩ :: pinsOf (Function.update ptr p f) pins = _
  rw [Function.update_self, hrest]

/-! ## The simulation -/

/-- A client in the middle of its run: the pool is sound, the store mirrors it,
and of the pins that are out the first ones are the client's. -/
structure Client {P : Type} (codec : PageCodec P) (out : List Pin) (poolSize : Nat)
    (s : DiskCacheState) (store : PageStore P) (ptr : PageId → FrameId)
    (pins : List (PageId × Bool)) : Prop where
  sound : ∃ b content, DiskCacheInv s b content
  mirrors : Mirrors codec s store
  pins : s.pins = pinsOf ptr pins ++ out
  poolSize : s.pool.poolSize = poolSize

namespace Client

variable {P : Type} {codec : PageCodec P} {out : List Pin} {poolSize : Nat}
  {s : DiskCacheState} {store : PageStore P} {ptr : PageId → FrameId}
  {pins : List (PageId × Bool)}

/-- The client pins fewer pages than the frames it may use. -/
theorem not_allPinned (h : Client codec out poolSize s store ptr pins) {b : BufferPoolManager}
    {content : PageId → PageData} (hinv : DiskCacheInv s b content)
    (hlt : pins.length + out.length < poolSize) : ¬ b.AllPinned := by
  refine hinv.cache.not_allPinned ?_
  have hsize : b.poolSize = s.pool.poolSize := by
    obtain ⟨image, -, rfl⟩ := hinv.simulates
    rfl
  show s.pins.length < b.poolSize
  rw [hsize, h.poolSize, h.pins, List.length_append, pinsOf, List.length_map]
  exact hlt

/-- The pins of a page are counted in range if there are few pins altogether. -/
theorem countersFit (h : Client codec out poolSize s store ptr pins) {b : BufferPoolManager}
    {content : PageId → PageData} (hinv : DiskCacheInv s b content)
    (hcount : pins.length + out.length + 1 < 2 ^ 31) (p : PageId) :
    b.CountersFit (.fetchPage p) := by
  intro f hf
  have hpins : (b.pages f).pinCount = (s.pins.countP fun pin => pin.pageId = p : Nat) :=
    hinv.cache.count p f hf
  have hlen : s.pins.length = pins.length + out.length := by
    rw [h.pins, List.length_append, pinsOf, List.length_map]
  have hle : s.pins.countP (fun pin => pin.pageId = p) ≤ s.pins.length := List.countP_le_length
  rw [hpins]
  omega

theorem newPage (h : Client codec out poolSize s store ptr pins)
    (hlt : pins.length + out.length < poolSize) (hid : store.nextPageId + 1 < 2 ^ 31) :
    ∃ f b s', s.pool.newPage = .ok (some (f, store.nextPageId), b) ∧ s'.pool = b ∧
      Client codec out poolSize s' (store.newPage (codec.ofPage PageData.zero)).2
        (Function.update ptr store.nextPageId f) ((store.nextPageId, true) :: pins) := by
  obtain ⟨b, content, hinv⟩ := h.sound
  have hpool : b.PoolInv none := hinv.cache.pool
  have hfit : b.CountersFit .newPage := by
    rw [h.mirrors.next.trans hinv.simulates.same.2.2] at hid
    exact .inr hid
  obtain ⟨r, hrun, ⟨hnone, -⟩ | ⟨f, p, hsome, -, rfl, hnext, hinv'⟩⟩ := hinv.newPage hfit
  · exact absurd (hpool.newPage_none_iff.mp hnone) (h.not_allPinned hinv hlt)
  · have hid : store.nextPageId = b.disk.nextPageId :=
      h.mirrors.next.trans hinv.simulates.same.2.2
    obtain ⟨b', hstep, -, hsize, -⟩ := hpool.step (show b.InRange .newPage from ⟨trivial, hfit⟩)
    obtain rfl : b.newPage.2 = b' := Except.ok.inj hstep
    refine ⟨f, r, _, by rw [hrun, hsome, hid], rfl, ⟨_, _, hinv'⟩, ?_, ?_, ?_⟩
    · rw [← hid] at hnext ⊢
      constructor
      case next => exact (hinv'.simulates.same.2.2.trans hnext).symm
      case live =>
        intro q
        show q = store.nextPageId ∨ q ∈ s.live ↔ 0 ≤ q ∧ q < store.nextPageId + 1
        have h0 : 0 ≤ store.nextPageId := hid ▸ hpool.next_nonneg
        rw [h.mirrors.live q, Int.lt_add_one_iff]
        constructor
        · rintro (rfl | ⟨hq, hlt⟩)
          · exact ⟨h0, Int.le_refl _⟩
          · exact ⟨hq, Int.le_of_lt hlt⟩
        · rintro ⟨hq, hle⟩
          rcases Int.lt_or_eq_of_le hle with hlt | rfl
          · exact .inr ⟨hq, hlt⟩
          · exact .inl rfl
      case pages =>
        intro q hq
        show Function.update store.pages store.nextPageId (codec.ofPage PageData.zero) q =
          codec.ofPage (Function.update s.content store.nextPageId PageData.zero q)
        by_cases hqp : q = store.nextPageId
        · rw [hqp, Function.update_self, Function.update_self]
        · rw [Function.update_of_ne hqp, Function.update_of_ne hqp]
          exact h.mirrors.pages q (hq.resolve_left hqp)
    · rw [hid]
      have hcache := hinv'.cache
      rw [h.pins] at hcache
      rw [pinsOf_update hcache, h.pins]
      rfl
    · exact hinv'.simulates.same.2.1.trans (hsize.trans (hinv.simulates.same.2.1.symm.trans
        h.poolSize))

theorem fetchPage (h : Client codec out poolSize s store ptr pins)
    (hlt : pins.length + out.length < poolSize) (hcount : pins.length + out.length + 1 < 2 ^ 31)
    {p : PageId} (hp : 0 ≤ p ∧ p < store.nextPageId) :
    ∃ f b s', s.pool.fetchPage p = .ok (some f, b) ∧ s'.pool = b ∧
      codec.ofPage (b.pages f).data = store.pages p ∧
      Client codec out poolSize s' (store.pinPage p)
        (Function.update ptr p f) ((p, false) :: pins) := by
  obtain ⟨b, content, hinv⟩ := h.sound
  have hpool : b.PoolInv none := hinv.cache.pool
  have hlive : p ∈ s.live := (h.mirrors.live p).mpr hp
  have hfit := h.countersFit hinv hcount p
  obtain ⟨r, hrun, ⟨hnone, -⟩ | ⟨f, hsome, hnext, hinv'⟩⟩ := hinv.fetchPage hlive hfit
  · exact absurd ((hpool.fetchPage_none_iff p).mp hnone).2 (h.not_allPinned hinv hlt)
  · obtain ⟨b', hstep, -, hsize, -⟩ := hpool.step
      (show b.InRange (.fetchPage p) from ⟨hinv.allocated p hlive, hfit⟩)
    obtain rfl : (b.fetchPage p).2 = b' := Except.ok.inj hstep
    have hdata := hinv'.data_eq (List.mem_cons_self (a := Pin.mk f p false))
    refine ⟨f, r, _, by rw [hrun, hsome], rfl, ?_, ⟨_, _, hinv'⟩, ⟨?_, h.mirrors.live,
      h.mirrors.pages⟩, ?_, ?_⟩
    · rw [h.mirrors.pages p hlive]
      exact congrArg codec.ofPage hdata
    · exact h.mirrors.next.trans (hinv.simulates.same.2.2.trans
        (hnext.symm.trans hinv'.simulates.same.2.2.symm))
    · have hcache := hinv'.cache
      rw [h.pins] at hcache
      rw [pinsOf_update hcache, h.pins]
      rfl
    · exact hinv'.simulates.same.2.1.trans (hsize.trans (hinv.simulates.same.2.1.symm.trans
        h.poolSize))

theorem setPage (h : Client codec out poolSize s store ptr pins) {p : PageId} {wrote : Bool}
    (hp : (p, wrote) ∈ pins) {page : P} (hpage : codec.ofPage (codec.toPage page) = page) :
    ∃ s', s'.pool = s.pool.modifyPage (ptr p) (fun frame =>
        { frame with data := codec.toPage page }) ∧
      Client codec out poolSize s' (store.setPage p page) ptr
        ((p, true) :: pins.erase (p, wrote)) := by
  obtain ⟨b, content, hinv⟩ := h.sound
  have hmem : (⟨ptr p, p, wrote⟩ : Pin) ∈ s.pins := by
    rw [h.pins]
    exact List.mem_append_left _ (List.mem_map.mpr ⟨(p, wrote), hp, rfl⟩)
  have hinv' := hinv.overwrite hmem fun _ => codec.toPage page
  refine ⟨_, rfl, ⟨_, _, hinv'⟩, ⟨h.mirrors.next, h.mirrors.live, fun q hq => ?_⟩, ?_, h.poolSize⟩
  · show Function.update store.pages p page q =
      codec.ofPage (Function.update s.content p (codec.toPage page) q)
    by_cases hqp : q = p
    · rw [hqp, Function.update_self, Function.update_self, hpage]
    · rw [Function.update_of_ne hqp, Function.update_of_ne hqp]
      exact h.mirrors.pages q hq
  · show _ :: s.pins.erase ⟨ptr p, p, wrote⟩ = _
    rw [h.pins]
    exact congrArg (_ :: ·) (erase_pinsOf ptr out hp)

theorem unpinPage (h : Client codec out poolSize s store ptr pins) {p : PageId} {wrote : Bool}
    (hp : (p, wrote) ∈ pins) {isDirty : Bool} (hwrote : wrote = true → isDirty = true) :
    ∃ s', s'.pool = (s.pool.unpinPage p isDirty).2 ∧
      Client codec out poolSize s' (store.unpinPage p) ptr (pins.erase (p, wrote)) := by
  obtain ⟨b, content, hinv⟩ := h.sound
  have hmem : (⟨ptr p, p, wrote⟩ : Pin) ∈ s.pins := by
    rw [h.pins]
    exact List.mem_append_left _ (List.mem_map.mpr ⟨(p, wrote), hp, rfl⟩)
  have hinv' := hinv.unpinPage hmem hwrote
  have hpool : b.PoolInv none := hinv.cache.pool
  obtain ⟨b', hstep, -, hsize, -⟩ := hpool.step 
    (show b.InRange (.unpinPage p isDirty) from ⟨trivial, trivial⟩)
  obtain rfl : (b.unpinPage p isDirty).2 = b' := Except.ok.inj hstep
  refine ⟨_, rfl, ⟨_, _, hinv'⟩, ⟨?_, h.mirrors.live, h.mirrors.pages⟩, ?_, ?_⟩
  · show store.nextPageId = (s.pool.unpinPage p isDirty).2.diskManager.nextPageId
    rw [DiskPool.unpinPage_diskManager]
    exact h.mirrors.next
  · show s.pins.erase ⟨ptr p, p, wrote⟩ = _
    rw [h.pins]
    exact erase_pinsOf ptr out hp
  · exact hinv'.simulates.same.2.1.trans (hsize.trans (hinv.simulates.same.2.1.symm.trans
      h.poolSize))

end Client

namespace PageProg

variable {P α : Type} {codec : PageCodec P} {out : List Pin} {poolSize n : Nat}

/-- **The pool is a store** for a client that keeps to the discipline and has `n` frames, `n` and
the pins of the others below `2^31`: no page is null, nothing is thrown, the answer is that of the
store, and the store mirrors the pool afterwards. -/
theorem runPool_eq (hn : n + out.length ≤ poolSize) (hcount : n + out.length < 2 ^ 31)
    (prog : PageProg P α) :
    ∀ {s : DiskCacheState} {store : PageStore P} {ptr : PageId → FrameId}
      {pins : List (PageId × Bool)}, Client codec out poolSize s store ptr pins →
      prog.Ok codec n store pins →
      ∃ s' ptr', prog.runPool codec ptr s.pool =
          .ok ((prog.runStore (codec.ofPage PageData.zero) store).1, s'.pool) ∧
        Client codec out poolSize s' (prog.runStore (codec.ofPage PageData.zero) store).2 ptr'
        [] := by
  induction prog with
  | done a =>
    intro s store ptr pins h hok
    exact ⟨s, ptr, rfl, hok ▸ h⟩
  | newPage next ih =>
    intro s store ptr pins h hok
    obtain ⟨f, b, s', hrun, rfl, h'⟩ := h.newPage (by have := hok.1; omega) hok.2.1
    obtain ⟨s'', ptr', hrest, h''⟩ := ih (some store.nextPageId) h' hok.2.2
    refine ⟨s'', ptr', ?_, h''⟩
    rw [runPool, hrun]
    exact hrest
  | fetchPage p next ih =>
    intro s store ptr pins h hok
    have hlt := hok.2.1
    obtain ⟨f, b, s', hrun, rfl, hdata, h'⟩ := h.fetchPage (by omega) (by omega) hok.1
    obtain ⟨s'', ptr', hrest, h''⟩ := ih (some (store.pages p)) h' hok.2.2
    refine ⟨s'', ptr', ?_, h''⟩
    rw [runPool, hrun]
    show (next (some (codec.ofPage (s'.pool.pages f).data))).runPool _ _ _ = _
    rw [hdata]
    exact hrest
  | setPage p page next ih =>
    intro s store ptr pins h hok
    obtain ⟨hpage, wrote, hp, hok⟩ := hok
    obtain ⟨s', hpool, h'⟩ := h.setPage hp hpage
    obtain ⟨s'', ptr', hrest, h''⟩ := ih h' hok
    refine ⟨s'', ptr', ?_, h''⟩
    rw [runPool, ← hpool]
    exact hrest
  | unpinPage p isDirty next ih =>
    intro s store ptr pins h hok
    obtain ⟨wrote, hp, hwrote, hok⟩ := hok
    obtain ⟨s', hpool, h'⟩ := h.unpinPage hp hwrote
    obtain ⟨s'', ptr', hrest, h''⟩ := ih h' hok
    refine ⟨s'', ptr', ?_, h''⟩
    rw [runPool, ← hpool]
    exact hrest

end PageProg

/-! ## Starts -/

/-- A fresh pool over a new file. -/
theorem client_create {P : Type} (codec : PageCodec P) (poolSize k : Nat) (ptr : PageId → FrameId)
    (store : PageStore P) (hnext : store.nextPageId = 0) :
    Client codec [] poolSize (DiskCacheState.create poolSize k) store ptr [] where
  sound := ⟨_, _, diskCacheInv_create poolSize k⟩
  mirrors := by
    refine ⟨hnext, fun p => ?_, fun p hp => absurd hp id⟩
    show False ↔ _
    rw [hnext]
    exact ⟨False.elim, fun h => absurd h.2 (Int.not_lt.mpr h.1)⟩
  pins := rfl
  poolSize := rfl

/-- **A restart** on the same file: the store mirrors the new pool. -/
theorem Client.restart {P : Type} {codec : PageCodec P} {out : List Pin} {poolSize : Nat}
    {s : DiskCacheState} {store : PageStore P} {ptr : PageId → FrameId}
    {pins : List (PageId × Bool)} (h : Client codec out poolSize s store ptr pins)
    (poolSize' k : Nat) {r : DiskPool} (hflush : s.pool.flushAllPages = .ok r) :
    Client codec [] poolSize' { s with
      pool := DiskPool.create poolSize' (DiskManager.create r.diskManager.dbIo.file) k
      pins := [] } store ptr [] where
  sound := by
    obtain ⟨b, content, hinv⟩ := h.sound
    exact hinv.restart poolSize' k hflush
  mirrors := by
    refine ⟨?_, h.mirrors.live, h.mirrors.pages⟩
    obtain ⟨b, content, hinv⟩ := h.sound
    obtain ⟨r', hflush', ⟨image, hholds, -⟩, hinv', hsame, hfile, -⟩ := hinv.flushAllPages
    obtain rfl : r' = r := Except.ok.inj (hflush'.symm.trans hflush)
    have hid : store.nextPageId = b.disk.nextPageId := h.mirrors.next.trans hinv.simulates.same.2.2
    have h0 : 0 ≤ store.nextPageId := hid ▸ hinv.cache.pool.next_nonneg
    have hle : r'.diskManager.numPages ≤ Int.toNat store.nextPageId := by
      rw [hid, ← hsame]
      exact hinv'.bound
    have hnext := hholds.reopen_next hinv'.numPages_lt
    generalize DiskManager.create r'.diskManager.dbIo.file = d at hnext ⊢
    show store.nextPageId = d.nextPageId
    rw [hnext]
    refine Int.le_antisymm ?_ ?_
    · -- the last page that was made is in the file
      rcases Int.lt_or_eq_of_le h0 with hpos | hzero
      · have hlast := hfile (store.nextPageId - 1)
          ((h.mirrors.live _).mpr ⟨Int.le_sub_one_of_lt hpos, Int.sub_one_lt_of_le (Int.le_refl _)⟩)
        exact Int.le_of_sub_one_lt hlast
      · rw [← hzero]
        exact Int.natCast_nonneg _
    · rw [← Int.toNat_of_nonneg h0]
      exact Int.ofNat_le.mpr hle
  pins := rfl
  poolSize := rfl

end OneBase
