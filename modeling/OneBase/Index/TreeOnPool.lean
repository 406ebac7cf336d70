import OneBase.Index.Latches
import OneBase.Index.PinBound

/-!
# Operations of the tree on a buffer pool

The part of the store that belongs to a well-formed tree are the pages of the tree. An operation
succeeds there, so it makes the same calls in the whole store, and its log fits in four frames.
The pool serves the log as long as its pin counts and page ids stay in the range of an `int`,
and the operation writes inside its pages: past the end of one is the header of the next frame.

- `BPlusTree.part`: the store without the pages of other trees.
- `TreeOp.run_served`: with four frames that are free or not pinned, no page is null.
-/

namespace OneBase

open BufferPoolManager

namespace BTree

variable {K V : Type}

/-- The pages of a tree refer to pages of the tree, the root page also to its parent. -/
theorem refersTo {next : PageId} : ∀ {h : Nat} {t : BTree K V h}, t.Links →
    (∀ p ∈ t.ids, IsPage next p) → IsParent next t.parent → ∀ e ∈ t.pages, e.2.RefersTo next
  | 0, leaf id page, _, _, hparent, e, he => by
    rw [List.mem_singleton.mp he]
    exact hparent
  | h + 1, node id m p cs, hlinks, hids, hparent, e, he => by
    have hbelow : ∀ c ∈ cs, ∀ q ∈ c.2.ids, IsPage next q := fun c hc q hq => hids q (by
      rw [ids_node]
      exact List.mem_cons_of_mem _ (List.mem_flatMap.mpr ⟨c, hc, hq⟩))
    rcases List.mem_cons.mp he with rfl | he
    · refine ⟨hparent, fun e he => ?_⟩
      obtain ⟨c, hc, rfl⟩ := List.mem_map.mp he
      exact hbelow c hc _ (id_mem_ids c.2)
    · obtain ⟨c, hc, he⟩ := List.mem_flatMap.mp he
      obtain ⟨hup, hlinks'⟩ := hlinks c hc
      refine refersTo hlinks' (hbelow c hc) (.inr ?_) e he
      rw [hup]
      exact hids id (id_mem_ids (node id m p cs))

end BTree

namespace BPlusTree

variable {K V : Type} [LinearOrder K] {h : Nat} {s : BPlusTree K V} {t : BTree K V h}

/-- The pages of the tree, and no others. -/
def part (s : BPlusTree K V) (t : BTree K V h) : BPlusTree K V :=
  { s with pages := fun p => if p ∈ t.ids then s.pages p else none }

theorem part_rep (hwf : s.WellFormed t) : t.Rep (s.part t).pages := by
  intro e he
  show (if e.1 ∈ t.ids then s.pages e.1 else none) = some e.2
  have hmem : e.1 ∈ t.ids := List.mem_map_of_mem he
  rw [if_pos hmem]
  exact hwf.rep e he

theorem part_wellFormed (hwf : s.WellFormed t) : (s.part t).WellFormed t :=
  ⟨hwf.root, part_rep hwf, hwf.nodup, hwf.alloc, hwf.parent, hwf.links, hwf.sized, hwf.ordered,
    hwf.chained⟩

theorem part_rootMin [Inhabited K] [Inhabited V] (hwf : s.WellFormed t) (hmin : s.RootMin) :
    (s.part t).RootMin := by
  have hmin' := (rootMin_iff hwf.root hwf.id_ne hwf.rep).mp hmin
  exact (rootMin_iff (s := s.part t) hwf.root hwf.id_ne (part_rep hwf)).mpr hmin'

/-- **The start of an operation.** -/
theorem part_tracked (hwf : s.WellFormed t) (hlog : s.log = []) :
    Tracked s.nextPageId (s.part t) s.pages [] := by
  have hcases : ∀ p page, (s.part t).pages p = some page → p ∈ t.ids ∧ s.pages p = some page := by
    intro p page hp
    change (if p ∈ t.ids then s.pages p else none) = some page at hp
    split at hp
    · exact ⟨‹_›, hp⟩
    · cases hp
  have hlog' : (s.part t).log = [] := hlog
  constructor
  case pos =>
    obtain ⟨h0, hlt⟩ := hwf.alloc t.id (BTree.id_mem_ids t)
    exact Int.lt_of_le_of_lt h0 hlt
  case more => exact fun p page hp => (hcases p page hp).2
  case exist => exact fun p page hp => hwf.alloc p (hcases p page hp).1
  case refer =>
    intro p page hp
    obtain ⟨hmem, hp⟩ := hcases p page hp
    obtain ⟨e, he, rfl⟩ := List.mem_map.mp hmem
    obtain rfl := Option.some.inj ((hwf.rep e he).symm.trans hp)
    exact BTree.refersTo hwf.links hwf.alloc (.inl hwf.parent) e he
  case nextPageId =>
    rw [hlog']
    rfl
  case live => rw [hlog', GuardLog.live]
  case fits =>
    rw [hlog']
    trivial

end BPlusTree

namespace TreeOp

open BPlusTree

variable {K V : Type} [LinearOrder K] [Inhabited K] [Inhabited V] {s : BPlusTree K V}

/-- The operation is not `operator++`, which is not one of the tree. -/
def OnTree : TreeOp K V → Prop
  | next _ => False
  | _ => True

theorem run_follows {next : PageId} {pages : PageId → Option (TreePage K V)}
    (h : Tracked next s pages []) (hroot : IsPage s.nextPageId s.rootPageId) (fuel : Nat)
    {op : TreeOp K V} (hop : op.OnTree) :
    Follows (Mirrors next []) (op.run fuel s) (op.run fuel { s with pages }) := by
  cases op with
  | insert key value => exact (h.insert hroot fuel key value).map fun _ _ hab => hab.2
  | remove key => exact h.remove hroot fuel key
  | getValue key => exact (h.getValue hroot fuel key).map fun _ _ hab => hab.2
  | begin => exact (h.begin hroot fuel).map fun _ _ hab => hab.2
  | beginAt key => exact (h.beginAt hroot fuel key).map fun _ _ hab => hab.2
  | next it => exact absurd hop id

/-- **On an empty tree** `Insert` makes one new page, and no other operation makes a call. -/
theorem run_fits_empty (hroot : s.rootPageId = invalidPageId) (hlog : s.log = []) (fuel : Nat)
    {op : TreeOp K V} (hop : op.OnTree) :
    ∃ s', op.run fuel s = some s' ∧ s'.log.Fits s.nextPageId 4 ∧
      s'.nextPageId = s'.log.nextPageId s.nextPageId := by
  have hempty : s.isEmpty = true := decide_eq_true hroot
  have hfits : s.log.Fits s.nextPageId 4 ∧ s.nextPageId = s.log.nextPageId s.nextPageId := by
    rw [hlog]
    exact ⟨trivial, rfl⟩
  cases op with
  | insert key value =>
    rw [run, BPlusTree.insert, if_pos hempty]
    refine ⟨_, rfl, ⟨List.mem_cons_self, ?_, .of_length ?_, hfits.1⟩, ?_⟩
    · rw [if_pos rfl, hlog]
      rfl
    · rw [hlog]
      exact Nat.le_of_ble_eq_true rfl
    · show s.nextPageId + 1 = GuardLog.nextPageId s.nextPageId s.log + 1
      rw [← hfits.2]
  | remove key => exact ⟨s, by rw [run, BPlusTree.remove, if_pos hempty], hfits⟩
  | getValue key => exact ⟨s, by rw [run, BPlusTree.getValue, if_pos hempty]; rfl, hfits⟩
  | begin => exact ⟨s, by rw [run, BPlusTree.begin, if_pos hempty]; rfl, hfits⟩
  | beginAt key => exact ⟨s, by rw [run, BPlusTree.beginAt, if_pos hempty]; rfl, hfits⟩
  | next it => exact absurd hop id

/-- **On a well-formed tree** the guards of an operation are on four pages at most. -/
theorem run_fits {h : Nat} {t : BTree K V h} (hwf : s.WellFormed t) (hmin : s.RootMin)
    (hlm : 2 ≤ s.leafMaxSize) (him : 3 ≤ s.internalMaxSize) (hlog : s.log = [])
    {op : TreeOp K V} (hop : op.OnTree) {fuel : Nat} (hfuel : h + 1 ≤ fuel) :
    ∃ s', op.run fuel s = some s' ∧ s'.log.Fits s.nextPageId 4 ∧
      s'.nextPageId = s'.log.nextPageId s.nextPageId := by
  have hpart : (s.part t).log.Ok [] := by
    rw [show (s.part t).log = [] from hlog]
    exact ⟨rfl, trivial⟩
  have henabled : op.Enabled (s.part t) := by
    cases op with
    | next it => exact absurd hop id
    | _ => trivial
  obtain ⟨s₁, hrun, -⟩ := run_log (part_wellFormed hwf) (part_rootMin hwf hmin) hlm him hpart op
    henabled hfuel
  have hroot : IsPage s.nextPageId s.rootPageId := hwf.root ▸ hwf.alloc t.id (BTree.id_mem_ids t)
  obtain ⟨_, hrun', pages, rfl, htracked⟩ :=
    run_follows (part_tracked hwf hlog) hroot fuel hop s₁ hrun
  exact ⟨_, hrun', htracked.fits, htracked.nextPageId⟩

/-- **No page of an operation is null**: with four frames that are free or not pinned, the pool
serves every `FetchPage` and `NewPage` of an operation on a well-formed tree of any height,
if the operation overruns no page, no page has nearly `2^31` pins before it, and it hands out no
page id past `2^31 - 1`. -/
theorem run_served {poolSize k : Nat} {b : BufferPoolManager} (hb : PoolRun InRange poolSize k b)
    {frames : List FrameId} (hframes : frames.Nodup) (hlen : 4 ≤ frames.length)
    (havail : ∀ f ∈ frames, b.Available f)
    (hpins : ∀ f, b.IsFrame f → (b.pages f).pinCount + 5 < 2 ^ 31)
    (s : BPlusTree K V) (hnext : s.nextPageId = b.disk.nextPageId) (hlm : 2 ≤ s.leafMaxSize)
    (him : 3 ≤ s.internalMaxSize) (hlog : s.log = []) (op : TreeOp K V) (hop : op.OnTree) :
    (s.rootPageId = invalidPageId → ∀ fuel, (∀ w ∈ op.writes fuel s, w.InBounds) ∧
      ∃ s', op.run fuel s = some s' ∧
        (s'.nextPageId < 2 ^ 31 → ∃ b', b.serveLog s'.log = some b')) ∧
    ∀ (h : Nat) (t : BTree K V h), s.WellFormed t → s.RootMin → t.InPages → ¬ op.Overruns t →
      ∀ fuel, h + 1 ≤ fuel → (∀ w ∈ op.writes fuel s, w.InBounds) ∧
        ∃ s', op.run fuel s = some s' ∧
          (s'.nextPageId < 2 ^ 31 → ∃ b', b.serveLog s'.log = some b') := by
  have hserved : ∀ {s' : BPlusTree K V}, s'.log.Fits s.nextPageId 4 ∧
      s'.nextPageId = s'.log.nextPageId s.nextPageId → s'.nextPageId < 2 ^ 31 →
      ∃ b', b.serveLog s'.log = some b' := by
    rintro s' ⟨hfits, hids⟩ hlt
    -- four of the frames are enough
    have hstart : Serving (frames.take 4) (2 ^ 31 - 6) b [] :=
      .start hb.inv.1 (fun f hf => havail f (List.mem_of_mem_take hf)) (by decide)
        fun f hf => by
          have hpin := hpins f hf
          omega
    have hfour : (frames.take 4).length = 4 := by
      rw [List.length_take]
      exact Nat.min_eq_left hlen
    rw [hids, hnext] at hlt
    rw [hnext, ← hfour] at hfits
    obtain ⟨b', hb', -⟩ := hstart.serveLog (hframes.sublist (List.take_sublist 4 frames))
      (by rw [hfour]; decide) hfits hlt
    exact ⟨b', hb'⟩
  constructor
  · intro hroot fuel
    obtain ⟨s', hrun, hfits⟩ := run_fits_empty hroot hlog fuel hop
    exact ⟨writes_inBounds_empty hroot op, s', hrun, hserved hfits⟩
  · intro h t hwf hmin hpages hroom fuel hfuel
    obtain ⟨s', hrun, hfits⟩ := run_fits hwf hmin hlm him hlog hop hfuel
    have hok : s.log.Ok [] := by
      rw [hlog]
      exact ⟨rfl, trivial⟩
    have hwrites := writes_inBounds_iff hwf hmin hpages hlm him hok op hfuel
    exact ⟨hwrites.mpr hroom, s', hrun, hserved hfits⟩

/-! ## A pool for a tree of three pages -/

/-- A pool of four frames on which three pages were made and given back. -/
def borrowPool : BufferPoolManager :=
  let b := (BufferPoolManager.create 4 2).newPage.2.newPage.2.newPage.2
  (((b.unpinPage 0 true).2.unpinPage 1 true).2.unpinPage 2 true).2

theorem borrowPool_run : PoolRun InRange 4 2 borrowPool := by
  have h₁ := @PoolRun.step InRange 4 2 _ _ .newPage .create ⟨trivial, .inr (by decide)⟩ rfl
  have h₂ := @PoolRun.step InRange 4 2 _ _ .newPage h₁ ⟨trivial, .inr (by decide)⟩ rfl
  have h₃ := @PoolRun.step InRange 4 2 _ _ .newPage h₂ ⟨trivial, .inr (by decide)⟩ rfl
  have h₄ := @PoolRun.step InRange 4 2 _ _ (.unpinPage 0 true) h₃ ⟨trivial, trivial⟩ rfl
  have h₅ := @PoolRun.step InRange 4 2 _ _ (.unpinPage 1 true) h₄ ⟨trivial, trivial⟩ rfl
  exact @PoolRun.step InRange 4 2 _ _ (.unpinPage 2 true) h₅ ⟨trivial, trivial⟩ rfl

instance (b : BufferPoolManager) (f : FrameId) : Decidable (b.Available f) :=
  inferInstanceAs (Decidable ((_ ∧ _) ∧ (_ ∨ _)))

theorem borrowPool_available : ∀ f ∈ [(0 : FrameId), 1, 2, 3], borrowPool.Available f := by decide

theorem borrowPool_pins :
    ∀ f, borrowPool.IsFrame f → (borrowPool.pages f).pinCount + 5 < 2 ^ 31 := by
  have hcases : ∀ f : Int, 0 ≤ f → f < 4 → f = 0 ∨ f = 1 ∨ f = 2 ∨ f = 3 := by omega
  rintro f ⟨hnonneg, hlt⟩
  rcases hcases f hnonneg hlt with rfl | rfl | rfl | rfl
  all_goals decide

/-- A `Remove` that borrows pins all three pages. -/
theorem run_served_remove : ∃ fuel s' b',
    (∀ w ∈ writes fuel (ofTree borrowTree 4 3 3) (remove 1), w.InBounds) ∧
    run fuel (ofTree borrowTree 4 3 3) (remove 1) = some s' ∧
    borrowPool.serveLog s'.log = some b' := by
  have hnext : (ofTree borrowTree 4 3 3).nextPageId = borrowPool.disk.nextPageId := by decide
  have hroom := not_overruns borrowTree_wellFormed borrowTree_rootMax (by decide) (by decide)
    (remove 1)
  obtain ⟨hwrites, s', hrun, hserved⟩ := (run_served borrowPool_run (by decide) (by decide)
    borrowPool_available borrowPool_pins (ofTree borrowTree 4 3 3) hnext (by decide) (by decide) rfl
    (remove 1) trivial).2 1 borrowTree borrowTree_wellFormed borrowTree_rootMin (by decide) hroom 2
    (Nat.le_refl 2)
  have hids : s'.nextPageId < 2 ^ 31 := by
    rw [← Option.some.inj hrun]
    decide
  obtain ⟨b', hb'⟩ := hserved hids
  exact ⟨2, s', b', hwrites, hrun, hb'⟩

/-- **A merge past the end of a page** writes into the header of the next frame. -/
theorem run_served_past_page :
    ¬ ∀ (poolSize k : Nat) (b : BufferPoolManager), PoolRun InRange poolSize k b →
      ∀ frames : List FrameId, frames.Nodup → 4 ≤ frames.length →
      (∀ f ∈ frames, b.Available f) →
      (∀ f, b.IsFrame f → (b.pages f).pinCount + 5 < 2 ^ 31) →
      ∀ (s : BPlusTree Int RID) (op : TreeOp Int RID) (h : Nat) (t : BTree Int RID h),
      s.nextPageId = b.disk.nextPageId → 2 ≤ s.leafMaxSize → 3 ≤ s.internalMaxSize → s.log = [] →
      op.OnTree → s.WellFormed t → s.RootMin → t.InPages → ∀ fuel, h + 1 ≤ fuel →
      (∀ w ∈ op.writes fuel s, w.InBounds) ∧ ∃ s', op.run fuel s = some s' ∧
        (s'.nextPageId < 2 ^ 31 → ∃ b', b.serveLog s'.log = some b') := by
  intro hall
  have hnext : (ofTree wideTree 400 3 3).nextPageId = borrowPool.disk.nextPageId := by
    show (3 : Int) = borrowPool.disk.nextPageId
    decide
  have hwrites := (hall 4 2 borrowPool borrowPool_run [0, 1, 2, 3] (by decide) (by decide)
    borrowPool_available borrowPool_pins (ofTree wideTree 400 3 3) (remove 0) 1 wideTree hnext
    (by decide) (Nat.le_refl 3) rfl trivial wideTree_wellFormed wideTree_rootMin wideTree_inPages 2
    (Nat.le_refl 2)).1
  rw [writes_inBounds_iff wideTree_wellFormed wideTree_rootMin wideTree_inPages (by decide)
    (Nat.le_refl 3) ⟨rfl, trivial⟩ (remove 0) (Nat.le_refl 2)] at hwrites
  exact hwrites wideTree_spills

end TreeOp

end OneBase
