import OneBase.Buffer.PoolFailures
import OneBase.Index.BPlusTree

/-!
# The pool under an operation of the tree

The log of the guards is a list of calls: a basic guard that is created is a `NewPage`, another
one a `FetchPage`, and every guard ends with an `UnpinPage`. Here the pool answers these calls.

- `BufferPoolManager.serve`: one call, `serveLog`: the calls of a log; no value stands for a
  page that is null.
- `GuardLog.Fits`: the log fetches pages that exist, and its guards are never on more than
  `n` pages.
- `Serving`: on the frames that nobody else uses, the pins are those of the live guards.
- `Serving.serveLog`: with `n` such frames no page is null, as long as no counter of the pool
  overflows.
-/

namespace OneBase

/-! ## Logs -/

/-- Some `n` pages have all these guards, which are one more at most. -/
def OnPages (n : Nat) (live : List (PageId × GuardKind)) : Prop :=
  live.length ≤ n + 1 ∧ ∃ ps : List PageId, ps.length ≤ n ∧ ∀ g ∈ live, g.1 ∈ ps

theorem OnPages.of_length {n : Nat} {live : List (PageId × GuardKind)} (h : live.length ≤ n) :
    OnPages n live := by
  refine ⟨Nat.le_succ_of_le h, live.map Prod.fst, ?_, fun _ hg => List.mem_map_of_mem hg⟩
  rwa [List.length_map]

theorem OnPages.perm {n : Nat} {live live' : List (PageId × GuardKind)} (h : OnPages n live)
    (hperm : live'.Perm live) : OnPages n live' := by
  obtain ⟨hguards, ps, hlen, hps⟩ := h
  exact ⟨hperm.length_eq ▸ hguards, ps, hlen, fun g hg => hps g (hperm.mem_iff.mp hg)⟩

namespace GuardLog

/-- The id of the next new page. -/
def nextPageId (next : PageId) : GuardLog → PageId
  | [] => next
  | .acquire _ kind :: log =>
    if kind = .basic then nextPageId next log + 1 else nextPageId next log
  | .release _ _ :: log => nextPageId next log

/-- New pages get the next ids, other pages exist; live guards are given back, and they are on
`n` pages at any time. -/
def Fits (next : PageId) (n : Nat) : GuardLog → Prop
  | [] => True
  | .acquire p kind :: log =>
    (if kind = .basic then p = nextPageId next log else 0 ≤ p ∧ p < nextPageId next log) ∧
      OnPages n ((p, kind) :: live log) ∧ Fits next n log
  | .release p kind :: log => (p, kind) ∈ live log ∧ Fits next n log

/-- Page ids are only counted up. -/
theorem nextPageId_le_cons (next : PageId) (event : GuardEvent) (log : GuardLog) :
    nextPageId next log ≤ nextPageId next (event :: log) := by
  cases event with
  | release p kind => exact Int.le_refl _
  | acquire p kind =>
    show _ ≤ if kind = .basic then nextPageId next log + 1 else nextPageId next log
    split
    · exact Int.le_of_lt (Int.lt_succ _)
    · exact Int.le_refl _

end GuardLog

namespace BufferPoolManager

/-! ## Calls -/

/-- What a guard passes to `UnpinPage`. A new page was written. -/
def unpinFlag : GuardKind → Bool
  | .read => false
  | .basic => true
  | .write => true

/-- The call that a guard makes; none if the page is null, or a new page has another id. -/
def serve (b : BufferPoolManager) : GuardEvent → Option BufferPoolManager
  | .acquire p .basic =>
    match b.newPage with
    | (none, _) => none
    | (some (_, q), b) => if q = p then some b else none
  | .acquire p _ =>
    match b.fetchPage p with
    | (none, _) => none
    | (some _, b) => some b
  | .release p kind => some (b.unpinPage p (unpinFlag kind)).2

/-- The calls of a log, from the first one on. -/
def serveLog (b : BufferPoolManager) : GuardLog → Option BufferPoolManager
  | [] => some b
  | event :: log => (b.serveLog log).bind fun b => b.serve event

/-- The frame is free, or its page is not pinned. -/
def Available (b : BufferPoolManager) (f : FrameId) : Prop :=
  b.IsFrame f ∧ (f ∈ b.freeList ∨ (b.pages f).pinCount = 0)

end BufferPoolManager

open BufferPoolManager Cpp

/-! ## Pins -/

/-- The number of live guards on a page. -/
def guardsOn (live : List (PageId × GuardKind)) (p : PageId) : Nat :=
  live.countP fun g => g.1 = p

theorem guardsOn_cons (p : PageId) (kind : GuardKind) (live : List (PageId × GuardKind))
    (q : PageId) : guardsOn ((p, kind) :: live) q = guardsOn live q + if p = q then 1 else 0 := by
  unfold guardsOn
  rw [List.countP_cons]
  simp only [decide_eq_true_eq]

theorem guardsOn_pos_iff {live : List (PageId × GuardKind)} {p : PageId} :
    0 < guardsOn live p ↔ ∃ g ∈ live, g.1 = p := by
  unfold guardsOn
  rw [List.countP_pos_iff]
  simp only [decide_eq_true_eq]

theorem guardsOn_le_length (live : List (PageId × GuardKind)) (p : PageId) :
    guardsOn live p ≤ live.length :=
  List.countP_le_length

/-- **The guards of one operation on the pool**: their pages are resident and have at least
their pins. A page in one of the `frames` has no other pins, and any page has at most `c`. -/
structure Serving (frames : List FrameId) (c : Int) (b : BufferPoolManager)
    (live : List (PageId × GuardKind)) : Prop where
  pool : b.PoolInv none
  nonneg : 0 ≤ c
  isFrame : ∀ f ∈ frames, b.IsFrame f
  resident : ∀ g ∈ live, ∃ f, b.pageTable.lookup g.1 = some f
  le : ∀ p f, b.pageTable.lookup p = some f → guardsOn live p ≤ (b.pages f).pinCount
  eq : ∀ p f, b.pageTable.lookup p = some f → f ∈ frames →
    (b.pages f).pinCount = guardsOn live p
  bound : ∀ p f, b.pageTable.lookup p = some f → (b.pages f).pinCount ≤ c + guardsOn live p

namespace Serving

variable {frames : List FrameId} {c : Int} {b : BufferPoolManager}
  {live : List (PageId × GuardKind)} {p : PageId} {kind : GuardKind}

/-- The operation has no guard yet. -/
theorem start (hpool : b.PoolInv none) (havail : ∀ f ∈ frames, b.Available f) (hc : 0 ≤ c)
    (hpins : ∀ f, b.IsFrame f → (b.pages f).pinCount ≤ c) : Serving frames c b [] where
  pool := hpool
  nonneg := hc
  isFrame := fun f hf => (havail f hf).1
  resident := fun _ hg => absurd hg List.not_mem_nil
  le := fun _ f _ => hpool.pin_nonneg f
  eq := fun p f hp hf => by
    rcases (havail f hf).2 with hfree | hzero
    · exact absurd ⟨p, hp⟩ (hpool.free_unmapped f hfree)
    · exact hzero
  bound := fun p f hp => by
    have hpin := hpins f (hpool.mapped_isFrame f ⟨p, hp⟩)
    exact hpin.trans (Int.le_add_of_nonneg_right (Int.natCast_nonneg _))

theorem not_live (h : Serving frames c b live) (hp : b.pageTable.lookup p = none) :
    guardsOn live p = 0 := by
  by_contra hne
  obtain ⟨g, hg, rfl⟩ := guardsOn_pos_iff.mp (Nat.pos_of_ne_zero hne)
  obtain ⟨f, hf⟩ := h.resident g hg
  rw [hp] at hf
  cases hf

/-- The page of a pinned frame among `frames` has a live guard. -/
theorem exists_guard (h : Serving frames c b live) {f : FrameId} (hf : f ∈ frames)
    (hpin : 0 < (b.pages f).pinCount) :
    b.pageTable.lookup (b.pages f).pageId = some f ∧ ∃ g ∈ live, g.1 = (b.pages f).pageId := by
  obtain ⟨q, hq⟩ := h.pool.pinned_mapped f hpin
  obtain rfl := h.pool.pageId q f hq
  refine ⟨hq, guardsOn_pos_iff.mp ?_⟩
  have hcount := h.eq _ f hq hf
  omega

/-- **A frame is left** for a page that is not resident: the guards are on fewer pages than
there are frames. -/
theorem not_allPinned (h : Serving frames c b live) (hframes : frames.Nodup)
    (hp : b.pageTable.lookup p = none) (hon : OnPages frames.length ((p, kind) :: live)) :
    ¬ b.AllPinned := by
  intro hall
  obtain ⟨-, ps, hlen, hps⟩ := hon
  have hguard := fun f hf => h.exists_guard hf (hall f (h.isFrame f hf))
  -- the pages of the frames are distinct, and `p` is none of them
  have hnodup : (frames.map fun f => (b.pages f).pageId).Nodup := by
    refine List.Nodup.map_on (fun f hf f' hf' heq => ?_) hframes
    have hlookup := (hguard f hf).1
    rw [heq, (hguard f' hf').1] at hlookup
    exact (Option.some.inj hlookup).symm
  have hsubset : (frames.map fun f => (b.pages f).pageId) ⊆ ps.erase p := by
    intro q hq
    obtain ⟨f, hf, rfl⟩ := List.mem_map.mp hq
    obtain ⟨hlookup, g, hg, hgq⟩ := hguard f hf
    have hne : (b.pages f).pageId ≠ p := by
      intro heq
      rw [heq, hp] at hlookup
      cases hlookup
    exact (List.mem_erase_of_ne hne).mpr (hgq ▸ hps g (List.mem_cons_of_mem _ hg))
  have hle := (List.subperm_of_subset hnodup hsubset).length_le
  have hmem : p ∈ ps := hps (p, kind) List.mem_cons_self
  have hpos := List.length_pos_of_mem hmem
  rw [List.length_map, List.length_erase_of_mem hmem] at hle
  omega

/-! ### One call -/

/-- A page that was not resident is put in a frame. -/
theorem install (h : Serving frames c b live) {f : FrameId} {b₁ b' : BufferPoolManager}
    (hp : b.pageTable.lookup p = none) (htook : b.TookFrame f b₁) (hb₁ : b₁.PoolInv (some f))
    (hb' : b'.PoolInv none) (hsize : b'.poolSize = b.poolSize)
    (htable : b'.pageTable = b₁.pageTable.insert p f)
    (hpages : ∀ g, g ≠ f → b'.pages g = b.pages g) (hpin : (b'.pages f).pinCount = 1) :
    Serving frames c b' ((p, kind) :: live) := by
  have hself : b'.pageTable.lookup p = some f := by rw [htable, AList.lookup_insert]
  have hcount : ∀ q g, b'.pageTable.lookup q = some g →
      (q = p ∧ g = f ∧ guardsOn ((p, kind) :: live) q = 1) ∨
        (b.pageTable.lookup q = some g ∧ b'.pages g = b.pages g ∧
          guardsOn ((p, kind) :: live) q = guardsOn live q) := by
    intro q g hq
    by_cases hqp : q = p
    · subst hqp
      refine .inl ⟨rfl, Option.some.inj (hq.symm.trans hself), ?_⟩
      rw [guardsOn_cons, h.not_live hp, if_pos rfl]
    · rw [htable] at hq
      obtain ⟨hq', hgf⟩ := lookup_of_insert_tookFrame htook hb₁ hqp hq
      refine .inr ⟨hq', hpages g hgf, ?_⟩
      rw [guardsOn_cons, if_neg (Ne.symm hqp), Nat.add_zero]
  have hc := h.nonneg
  constructor
  case pool => exact hb'
  case nonneg => exact hc
  case isFrame =>
    intro g hg
    unfold IsFrame
    rw [hsize]
    exact h.isFrame g hg
  case resident =>
    intro g hg
    rcases List.mem_cons.mp hg with rfl | hg
    · exact ⟨f, hself⟩
    · obtain ⟨f', hf'⟩ := h.resident g hg
      have hgp : g.1 ≠ p := by
        intro heq
        rw [heq, hp] at hf'
        cases hf'
      have hpos : 0 < (b.pages f').pinCount := by
        have hguards := guardsOn_pos_iff.mpr ⟨g, hg, rfl⟩
        have hle := h.le g.1 f' hf'
        omega
      exact ⟨f', by rw [htable]; exact lookup_insert_of_tookFrame htook hgp hf' hpos⟩
  case le =>
    intro q g hq
    rcases hcount q g hq with ⟨-, rfl, hone⟩ | ⟨hq', hpage, hsame⟩
    · rw [hone, hpin]
      exact Int.le_refl 1
    · rw [hsame, hpage]
      exact h.le q g hq'
  case eq =>
    intro q g hq hg
    rcases hcount q g hq with ⟨-, rfl, hone⟩ | ⟨hq', hpage, hsame⟩
    · rw [hone, hpin]
      rfl
    · rw [hsame, hpage]
      exact h.eq q g hq' hg
  case bound =>
    intro q g hq
    rcases hcount q g hq with ⟨-, rfl, hone⟩ | ⟨hq', hpage, hsame⟩
    · rw [hone, hpin]
      exact Int.le_add_of_nonneg_left hc
    · rw [hsame, hpage]
      exact h.bound q g hq'

/-- The pins of a resident page change, as the guards on it do. -/
theorem setPin (h : Serving frames c b live) {f : FrameId} {b' : BufferPoolManager}
    {live' : List (PageId × GuardKind)} (hp : b.pageTable.lookup p = some f)
    (hb' : b'.PoolInv none) (hsize : b'.poolSize = b.poolSize) (htable : b'.pageTable = b.pageTable)
    (hpages : ∀ g, g ≠ f → b'.pages g = b.pages g)
    (hresident : ∀ g ∈ live', g ∈ live ∨ g.1 = p)
    (hother : ∀ q, q ≠ p → guardsOn live' q = guardsOn live q)
    (hself : (b'.pages f).pinCount - guardsOn live' p = (b.pages f).pinCount - guardsOn live p) :
    Serving frames c b' live' := by
  have hframe : ∀ q g, q ≠ p → b.pageTable.lookup q = some g → g ≠ f := by
    rintro q g hqp hq rfl
    exact hqp (h.pool.injective hq hp)
  constructor
  case pool => exact hb'
  case nonneg => exact h.nonneg
  case isFrame =>
    intro g hg
    unfold IsFrame
    rw [hsize]
    exact h.isFrame g hg
  case resident =>
    intro g hg
    rw [htable]
    rcases hresident g hg with hg | hgp
    · exact h.resident g hg
    · exact ⟨f, hgp ▸ hp⟩
  case le =>
    intro q g hq
    rw [htable] at hq
    have hle := h.le q g hq
    by_cases hqp : q = p
    · subst hqp
      obtain rfl := Option.some.inj (hq.symm.trans hp)
      omega
    · rw [hother q hqp, hpages g (hframe q g hqp hq)]
      exact hle
  case eq =>
    intro q g hq hg
    rw [htable] at hq
    have heq := h.eq q g hq hg
    by_cases hqp : q = p
    · subst hqp
      obtain rfl := Option.some.inj (hq.symm.trans hp)
      omega
    · rw [hother q hqp, hpages g (hframe q g hqp hq)]
      exact heq
  case bound =>
    intro q g hq
    rw [htable] at hq
    have hle := h.bound q g hq
    by_cases hqp : q = p
    · subst hqp
      obtain rfl := Option.some.inj (hq.symm.trans hp)
      omega
    · rw [hother q hqp, hpages g (hframe q g hqp hq)]
      exact hle

/-- **`NewPage`** gives the page that the tree expects. -/
theorem newPage (h : Serving frames c b live) (hframes : frames.Nodup)
    (hon : OnPages frames.length ((b.disk.nextPageId, .basic) :: live))
    (hnext : b.disk.nextPageId + 1 < 2 ^ 31) :
    ∃ b', b.serve (.acquire b.disk.nextPageId .basic) = some b' ∧
      Serving frames c b' ((b.disk.nextPageId, .basic) :: live) ∧
      b'.disk.nextPageId = b.disk.nextPageId + 1 := by
  have hfresh : b.pageTable.lookup b.disk.nextPageId = none := by
    cases hp : b.pageTable.lookup b.disk.nextPageId with
    | none => rfl
    | some f => exact absurd (h.pool.allocated _ f hp).2 (Int.lt_irrefl _)
  have hleft := h.not_allPinned hframes hfresh hon
  have hinv := h.pool.newPage (.inr hnext)
  rcases h.pool.acquireFrame with ⟨hnone, -⟩ | ⟨f, b₁, hsome, hb₁, hpages, hsame, hsize, htook⟩
  · exact absurd (h.pool.acquireFrame_none_iff.mp hnone) hleft
  · rw [BufferPoolManager.newPage, hsome] at hinv
    refine ⟨_, ?_, h.install hfresh htook hb₁ hinv hsize ?_ (fun g hg => ?_) ?_, ?_⟩
    · show (match b.newPage with
        | (none, _) => none
        | (some (_, q), b') => if q = b.disk.nextPageId then some b' else none) = _
      rw [BufferPoolManager.newPage, hsome]
      exact if_pos hsame
    · rw [← hsame]
      rfl
    · show Function.update b₁.pages f _ g = b.pages g
      rw [Function.update_of_ne hg, hpages]
    · show (Function.update b₁.pages f _ f).pinCount = 1
      rw [Function.update_self]
    · show int32 (b₁.disk.nextPageId + 1) = _
      rw [hsame]
      exact int32_succ h.pool.next_nonneg hnext

/-- The pins of a page leave room for one more guard. -/
theorem fetch_fits (h : Serving frames c b live) (hc : c + frames.length + 1 < 2 ^ 31)
    (hon : OnPages frames.length ((p, kind) :: live)) : b.CountersFit (.fetchPage p) := by
  intro f hf
  have hpins := h.bound p f hf
  have hguards := guardsOn_le_length live p
  have hlen : live.length + 1 ≤ frames.length + 1 := hon.1
  omega

/-- **`FetchPage`** of a page that exists. -/
theorem fetchPage (h : Serving frames c b live) (hframes : frames.Nodup) (halloc : b.Allocated p)
    (hc : c + frames.length + 1 < 2 ^ 31) (hon : OnPages frames.length ((p, kind) :: live)) :
    ∃ f b', b.fetchPage p = (some f, b') ∧ Serving frames c b' ((p, kind) :: live) ∧
      b'.disk.nextPageId = b.disk.nextPageId := by
  have hfits := h.fetch_fits hc hon
  have hinv := h.pool.fetchPage ⟨halloc, hfits⟩
  cases hp : b.pageTable.lookup p with
  | some f =>
    simp only [BufferPoolManager.fetchPage, hp] at hinv ⊢
    refine ⟨f, _, rfl, h.setPin hp hinv rfl rfl (fun g hg => Function.update_of_ne hg _ _)
      (fun g hg => ?_) (fun q hqp => ?_) ?_, rfl⟩
    · rcases List.mem_cons.mp hg with rfl | hg
      · exact .inr rfl
      · exact .inl hg
    · rw [guardsOn_cons, if_neg (Ne.symm hqp), Nat.add_zero]
    · show (Function.update b.pages f _ f).pinCount - _ = _
      rw [Function.update_self, guardsOn_cons, if_pos rfl]
      show int32 ((b.pages f).pinCount + 1) - _ = _
      rw [int32_succ (h.pool.pin_nonneg f) (hfits f hp)]
      push_cast
      omega
  | none =>
    have hleft := h.not_allPinned hframes hp hon
    rcases h.pool.acquireFrame with ⟨hnone, -⟩ | ⟨f, b₁, hsome, hb₁, hpages, hnext, hsize, htook⟩
    · exact absurd (h.pool.acquireFrame_none_iff.mp hnone) hleft
    · simp only [BufferPoolManager.fetchPage, hp, hsome] at hinv ⊢
      refine ⟨f, _, rfl, h.install hp htook hb₁ hinv hsize rfl (fun g hg => ?_) ?_, hnext⟩
      · show Function.update b₁.pages f _ g = b.pages g
        rw [Function.update_of_ne hg, hpages]
      · show (Function.update b₁.pages f _ f).pinCount = 1
        rw [Function.update_self]

/-- **`UnpinPage`** of a live guard. -/
theorem unpinPage (h : Serving frames c b live) (hlive : (p, kind) ∈ live) (isDirty : Bool) :
    Serving frames c (b.unpinPage p isDirty).2 (live.erase (p, kind)) ∧
      (b.unpinPage p isDirty).2.disk.nextPageId = b.disk.nextPageId := by
  obtain ⟨f, hp⟩ := h.resident (p, kind) hlive
  have hcount : ∀ q, guardsOn live q =
      guardsOn (live.erase (p, kind)) q + if p = q then 1 else 0 := by
    intro q
    rw [← guardsOn_cons, guardsOn, (List.perm_cons_erase hlive).countP_eq]
    rfl
  have hpos : 0 < (b.pages f).pinCount := by
    have hguards : 0 < guardsOn live p := guardsOn_pos_iff.mpr ⟨_, hlive, rfl⟩
    have hle := h.le p f hp
    omega
  have hinv := h.pool.unpinPage p isDirty
  obtain ⟨r, hres⟩ := b.unpinPage_eq hp hpos isDirty
  rw [hres] at hinv ⊢
  refine ⟨h.setPin hp hinv rfl rfl (fun g hg => Function.update_of_ne hg _ _)
    (fun g hg => .inl (List.mem_of_mem_erase hg)) (fun q hqp => ?_) ?_, rfl⟩
  · rw [hcount q, if_neg (Ne.symm hqp), Nat.add_zero]
  · show (Function.update b.pages f _ f).pinCount - _ = _
    rw [Function.update_self, hcount p, if_pos rfl]
    push_cast
    omega

/-! ### All calls -/

/-- **No page is null**: a log whose guards are on no more pages than there are frames is
served, if the counters of the pool have room for it. -/
theorem serveLog (h : Serving frames c b []) (hframes : frames.Nodup)
    (hc : c + frames.length + 1 < 2 ^ 31) :
    ∀ {log : GuardLog}, log.Fits b.disk.nextPageId frames.length →
      log.nextPageId b.disk.nextPageId < 2 ^ 31 →
      ∃ b', b.serveLog log = some b' ∧ Serving frames c b' log.live ∧
        b'.disk.nextPageId = log.nextPageId b.disk.nextPageId
  | [], _, _ => ⟨b, rfl, h, rfl⟩
  | .acquire p kind :: log, hfits, hids => by
    obtain ⟨hid, hon, hfits⟩ := hfits
    obtain ⟨b₁, hlog, h₁, hnext⟩ := h.serveLog hframes hc hfits
      (Int.lt_of_le_of_lt (GuardLog.nextPageId_le_cons _ _ log) hids)
    have hstep : ∃ b', b₁.serve (.acquire p kind) = some b' ∧
        Serving frames c b' ((p, kind) :: GuardLog.live log) ∧
        b'.disk.nextPageId = GuardLog.nextPageId b.disk.nextPageId (.acquire p kind :: log) := by
      unfold GuardLog.nextPageId at hids ⊢
      by_cases hkind : kind = .basic
      · subst hkind
        rw [if_pos rfl, ← hnext] at hid hids ⊢
        subst hid
        exact h₁.newPage hframes hon hids
      · rw [if_neg hkind, ← hnext] at hid ⊢
        obtain ⟨f, b', hfetch, h', hsame⟩ := h₁.fetchPage hframes hid hc hon
        refine ⟨b', ?_, h', hsame⟩
        cases kind with
        | basic => exact absurd rfl hkind
        | read => simp only [serve, hfetch]
        | write => simp only [serve, hfetch]
    obtain ⟨b', hserve, h', hsame⟩ := hstep
    exact ⟨b', by rw [BufferPoolManager.serveLog, hlog, Option.bind_some, hserve], h', hsame⟩
  | .release p kind :: log, hfits, hids => by
    obtain ⟨hlive, hfits⟩ := hfits
    obtain ⟨b₁, hlog, h₁, hnext⟩ := h.serveLog hframes hc hfits hids
    obtain ⟨h', hsame⟩ := h₁.unpinPage hlive (unpinFlag kind)
    refine ⟨_, ?_, h', hsame.trans hnext⟩
    rw [BufferPoolManager.serveLog, hlog, Option.bind_some]
    rfl

end Serving

end OneBase
