import OneBase.Index.InsertRefines
import OneBase.Index.ReadPaths
import OneBase.Index.RemoveKeeps

/-!
# Latches and pins of one operation

Every operation starts with no guard. A guard pins its page, so that an operation that leaves
no live guard left the pin counts of all pages as they were.

- `TreeOp`: the operations of the tree and its iterators.
- `TreeOp.writes_inBounds_iff`: when an operation writes inside its pages.
- `TreeOp.run_log_iff`: no latch is requested twice if and only if no page borrows.
-/

namespace OneBase

open BTree BPlusTree

/-- The operations of the tree, and `operator++` of an iterator. -/
inductive TreeOp (K V : Type) where
  | insert (key : K) (value : V)
  | remove (key : K)
  | getValue (key : K)
  | begin
  | beginAt (key : K)
  | next (it : BPlusTreeIterator)

namespace TreeOp

variable {K V : Type} [LinearOrder K] [Inhabited K] [Inhabited V] {h : Nat}

/-- The tree after the operation. -/
def run (fuel : Nat) (s : BPlusTree K V) : TreeOp K V → Option (BPlusTree K V)
  | insert key value => (s.insert fuel key value).map Prod.snd
  | remove key => s.remove fuel key
  | getValue key => (s.getValue fuel key).map Prod.snd
  | begin => (s.begin fuel).map Prod.snd
  | beginAt key => (s.beginAt fuel key).map Prod.snd
  | next it => (s.next it).map Prod.snd

/-- An iterator is at the end, or on a leaf page. -/
def Enabled (s : BPlusTree K V) : TreeOp K V → Prop
  | next it => it.pageId = invalidPageId ∨ ∃ page, s.pages it.pageId = some (.leaf page)
  | _ => True

/-- The operation is a `Remove` that makes a page borrow from its neighbour. -/
def Redistributes (t : BTree K V h) : TreeOp K V → Prop
  | remove key => Borrows key t
  | _ => False

/-- The elements of pages that the operation writes. -/
def writes (fuel : Nat) (s : BPlusTree K V) : TreeOp K V → List ArrayWrite
  | insert key value => s.insertWrites fuel key value
  | remove key => s.removeWrites fuel key
  | _ => []

/-- The operation fills a page past its end, or merges two pages past the end of one. -/
def Overruns (t : BTree K V h) : TreeOp K V → Prop
  | insert key _ => Overflows key t
  | remove key => Spills key t
  | _ => False

variable {s : BPlusTree K V} {fuel : Nat}

/-! ## Writes -/

/-- On an empty tree, all that is written is the first entry. -/
theorem writes_inBounds_empty (hroot : s.rootPageId = invalidPageId) (op : TreeOp K V) :
    ∀ w ∈ op.writes fuel s, w.InBounds := by
  cases op with
  | insert key value => exact insertWrites_inBounds_empty hroot key value fuel
  | remove key =>
    rw [writes, removeWrites, if_pos (show s.isEmpty = true from decide_eq_true hroot)]
    exact fun w hw => absurd hw List.not_mem_nil
  | _ => exact fun w hw => absurd hw List.not_mem_nil

/-- **An operation writes inside its pages** if and only if it does not overrun one. -/
theorem writes_inBounds_iff {t : BTree K V h} (hwf : s.WellFormed t) (hmin : s.RootMin)
    (hpages : t.InPages) (hlm : 2 ≤ s.leafMaxSize) (him : 3 ≤ s.internalMaxSize)
    (hlog : s.log.Ok []) (op : TreeOp K V) (hfuel : h + 1 ≤ fuel) :
    (∀ w ∈ op.writes fuel s, w.InBounds) ↔ ¬ op.Overruns t := by
  cases op with
  | insert key value => exact insertWrites_inBounds_iff hwf hlog key value hfuel
  | remove key => exact removeWrites_inBounds_iff hwf hmin hpages hlm him hlog key hfuel
  | _ => exact iff_of_true (fun w hw => absurd hw List.not_mem_nil) id

omit [Inhabited V] in
/-- **Maximum sizes below the capacities** of pages rule it out. -/
theorem not_overruns {t : BTree K V h} (hwf : s.WellFormed t) (hmax : s.RootMax)
    (hlm : s.leafMaxSize < leafCapacity) (him : s.internalMaxSize < internalCapacity)
    (op : TreeOp K V) : ¬ op.Overruns t := by
  cases op with
  | insert key value => exact hwf.not_overflows hmax hlm him key
  | remove key =>
    exact not_spills_of_sized (Nat.le_of_lt hlm) (Nat.le_of_lt him) key hwf.sized
  | _ => exact id

/-! ## Latches -/

theorem next_log (hlog : s.log.Ok []) {it : BPlusTreeIterator}
    (hit : Enabled s (next it : TreeOp K V)) :
    ∃ s', run fuel s (next it) = some s' ∧ s'.log.Ok [] := by
  by_cases hend : it.pageId = invalidPageId
  · refine ⟨s, ?_, hlog⟩
    simp only [run, BPlusTree.next, if_pos hend, Option.map_some]
  · obtain ⟨page, hpage⟩ := hit.resolve_left hend
    refine ⟨s.readPage it.pageId, ?_, readPage_log hlog _⟩
    rw [run, next_eq hend hpage]
    rfl

/-- **On an empty tree**, only `Insert` takes a guard. -/
theorem run_log_empty (hroot : s.rootPageId = invalidPageId) (hlog : s.log.Ok []) {op : TreeOp K V}
    (hop : op.Enabled s) : ∃ s', op.run fuel s = some s' ∧ s'.log.Ok [] := by
  have hempty : s.isEmpty = true := decide_eq_true hroot
  cases op with
  | insert key value =>
    have hnew : (s.fetchPage s.nextPageId .basic).log.Ok [(s.nextPageId, .basic)] :=
      fetched_log hlog
    rw [run, BPlusTree.insert, if_pos hempty]
    exact ⟨_, rfl, hnew.release_head⟩
  | remove key => exact ⟨s, by rw [run, BPlusTree.remove, if_pos hempty], hlog⟩
  | getValue key => exact ⟨s, by rw [run, BPlusTree.getValue, if_pos hempty]; rfl, hlog⟩
  | begin => exact ⟨s, by rw [run, BPlusTree.begin, if_pos hempty]; rfl, hlog⟩
  | beginAt key => exact ⟨s, by rw [run, BPlusTree.beginAt, if_pos hempty]; rfl, hlog⟩
  | next it => exact next_log hlog hop

/-- **The latches of an operation on a well-formed tree.** -/
theorem run_log {t : BTree K V h} (hwf : s.WellFormed t) (hmin : s.RootMin)
    (hlm : 2 ≤ s.leafMaxSize) (him : 3 ≤ s.internalMaxSize) (hlog : s.log.Ok [])
    (op : TreeOp K V) (hop : op.Enabled s) (hfuel : h + 1 ≤ fuel) :
    ∃ s', op.run fuel s = some s' ∧ s'.log.live = [] ∧
      (s'.log.NoRelatch ↔ ¬ op.Redistributes t) := by
  have hmin' := (rootMin_iff hwf.root hwf.id_ne hwf.rep).mp hmin
  have hread := hwf.readable hmin' hlm
  -- an operation other than `Remove`
  have hclean : ∀ {s' : BPlusTree K V}, op.run fuel s = some s' → s'.log.Ok [] →
      ¬ op.Redistributes t → ∃ s', op.run fuel s = some s' ∧ s'.log.live = [] ∧
        (s'.log.NoRelatch ↔ ¬ op.Redistributes t) :=
    fun hrun hok hnot => ⟨_, hrun, hok.live, iff_of_true hok.noRelatch hnot⟩
  cases op with
  | insert key value =>
    have hspec := insert_root hwf hlm him hlog key value hfuel
    have hrun : run fuel s (insert key value) = (s.insert fuel key value).map Prod.snd := rfl
    generalize s.insert fuel key value = result at hspec hrun
    cases hspec with
    | duplicate _ hlog' => exact hclean hrun hlog' id
    | added _ hlog' => exact hclean hrun hlog' id
  | remove key =>
    have hspec := remove_root hwf hmin hlm him hlog key hfuel
    have hrun : run fuel s (remove key) = s.remove fuel key := rfl
    generalize s.remove fuel key = result at hspec hrun
    cases hspec with
    | absent hkey hlog' => exact hclean hrun hlog' fun hborrows => hkey hborrows.mem_keys
    | emptied _ _ _ _ _ _ hborrows hlog' => exact hclean hrun hlog' hborrows
    | removed _ hlive hrelatch => exact ⟨_, hrun, hlive, hrelatch⟩
  | getValue key =>
    obtain ⟨value, log, hrun, -, hlog'⟩ := getValue_spec hread hfuel key
    exact hclean (by rw [run, hrun, Option.map_some]) (hlog' hwf.nodup hlog) id
  | begin =>
    obtain ⟨id, page, r, log, hrun, -, hlog'⟩ := begin_spec hread hfuel
    exact hclean (by rw [run, hrun, Option.map_some]) (hlog' hwf.nodup hlog) fun hnot => hnot
  | beginAt key =>
    obtain ⟨log, l, id, page, r, hdesc, hrun⟩ := beginAt_spec hread hfuel key
    exact hclean (by rw [run, hrun, Option.map_some]) (hdesc.log hwf.nodup hlog).release_head
      fun hnot => hnot
  | next it =>
    obtain ⟨s', hrun, hlog'⟩ := next_log hlog hop
    exact hclean hrun hlog' id

/-- **One operation stays inside its pages, and never requests a latch that it holds**, if and
only if it overruns no page and is not a `Remove` that makes a page borrow; it returns with no live
guard. -/
theorem run_log_iff (s : BPlusTree K V) (hlm : 2 ≤ s.leafMaxSize) (him : 3 ≤ s.internalMaxSize)
    (hlog : s.log = []) (op : TreeOp K V) (hop : op.Enabled s) :
    (s.rootPageId = invalidPageId → ∀ fuel, (∀ w ∈ op.writes fuel s, w.InBounds) ∧
      ∃ s', op.run fuel s = some s' ∧ s'.log.live = [] ∧ s'.log.NoRelatch) ∧
    ∀ (h : Nat) (t : BTree K V h), s.WellFormed t → s.RootMin → t.InPages → ∃ m, ∀ fuel,
      m ≤ fuel → ∃ s', op.run fuel s = some s' ∧
        ((∀ w ∈ op.writes fuel s, w.InBounds) ∧ s'.log.live = [] ∧ s'.log.NoRelatch ↔
          ¬ op.Overruns t ∧ ¬ op.Redistributes t) := by
  have hok : s.log.Ok [] := by
    rw [hlog]
    exact ⟨rfl, trivial⟩
  constructor
  · intro hroot fuel
    obtain ⟨s', hrun, hlog'⟩ := run_log_empty hroot hok hop
    exact ⟨writes_inBounds_empty hroot op, s', hrun, hlog'.live, hlog'.noRelatch⟩
  · intro h t hwf hmin hpages
    refine ⟨h + 1, fun fuel hfuel => ?_⟩
    obtain ⟨s', hrun, hlive, hrelatch⟩ := run_log hwf hmin hlm him hok op hop hfuel
    have hwrites := writes_inBounds_iff hwf hmin hpages hlm him hok op hfuel
    exact ⟨s', hrun, by rw [hwrites, ← hrelatch, and_iff_right hlive]⟩

/-! ## A leaf that borrows -/

/-- The first leaf has as few entries as it may have, the second as many. -/
def borrowTree : BTree Int RID 1 :=
  node 2 3 invalidPageId
    [(0, leaf 0 ⟨4, 2, 1, [(1, {}), (2, {})]⟩),
      (5, leaf 1 ⟨4, 2, invalidPageId, [(5, {}), (6, {}), (7, {}), (8, {})]⟩)]

theorem borrowTree_wellFormed : (ofTree borrowTree 4 3 3).WellFormed borrowTree := by
  refine wellFormed_ofTree ?_ ?_ rfl ?_ ?_ ?_ ?_
  all_goals decide

theorem borrowTree_rootMin : (ofTree borrowTree 4 3 3).RootMin :=
  (rootMin_iff borrowTree_wellFormed.root borrowTree_wellFormed.id_ne
    borrowTree_wellFormed.rep).mpr (by decide)

theorem borrowTree_rootMax : (ofTree borrowTree 4 3 3).RootMax :=
  borrowTree_wellFormed.rootMax_iff.mpr (by decide)

/-- `Remove` from the second leaf. -/
theorem run_log_iff_remove : ¬ Redistributes borrowTree (remove 5 : TreeOp Int RID) ∧
    ∃ fuel s', run fuel (ofTree borrowTree 4 3 3) (remove 5) = some s' ∧
      (∀ w ∈ writes fuel (ofTree borrowTree 4 3 3) (remove 5), w.InBounds) ∧ s'.log.live = [] ∧
      s'.log.NoRelatch := by
  have hnot : ¬ Redistributes borrowTree (remove 5 : TreeOp Int RID) :=
    show ¬ Borrows 5 borrowTree by decide
  have hroom := not_overruns borrowTree_wellFormed borrowTree_rootMax (by decide) (by decide)
    (remove 5)
  obtain ⟨m, hm⟩ := (run_log_iff (ofTree borrowTree 4 3 3) (by decide) (by decide) rfl (remove 5)
    trivial).2 1 borrowTree borrowTree_wellFormed borrowTree_rootMin (by decide)
  obtain ⟨s', hrun, hiff⟩ := hm m (Nat.le_refl m)
  exact ⟨hnot, m, s', hrun, hiff.mpr ⟨hroom, hnot⟩⟩

/-- `Remove` from the first leaf: `Redistribute` fetches the root, which
`CoalesceOrRedistribute` holds. -/
theorem remove_relatches :
    ¬ ∀ (h : Nat) (t : BTree Int RID h) (s : BPlusTree Int RID) (op : TreeOp Int RID),
      s.WellFormed t → s.RootMin → s.RootMax → 2 ≤ s.leafMaxSize → 3 ≤ s.internalMaxSize →
      s.log = [] → op.Enabled s → ∃ m, ∀ fuel, m ≤ fuel → ∃ s', op.run fuel s = some s' ∧
        s'.log.live = [] ∧ s'.log.NoRelatch := by
  intro hall
  obtain ⟨m, hm⟩ := hall 1 borrowTree (ofTree borrowTree 4 3 3) (remove 1) borrowTree_wellFormed
    borrowTree_rootMin borrowTree_rootMax (by decide) (by decide) rfl trivial
  obtain ⟨s', hrun, -, hrelatch⟩ := hm (m + 2) (Nat.le_add_right m 2)
  obtain ⟨s'', hrun', -, hiff⟩ := run_log borrowTree_wellFormed borrowTree_rootMin (by decide)
    (by decide) ⟨rfl, trivial⟩ (remove 1) trivial (Nat.le_add_left 2 m)
  obtain rfl : s' = s'' := Option.some.inj (hrun.symm.trans hrun')
  exact hiff.mp hrelatch (show Borrows 1 borrowTree by decide)

end TreeOp

end OneBase
