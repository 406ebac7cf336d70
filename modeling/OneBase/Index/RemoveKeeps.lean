import Mathlib.Data.Int.Order.Basic
import OneBase.Index.RemoveBounds
import OneBase.Index.RemoveRefines

/-!
# What `Remove` keeps

The shape of the tree stays valid, whatever `Remove` does: its leaves have one depth, pages
have as many slots as they should, and no entry is lost. The parents of the pages do not:
they are right if and only if no internal page but the root became underfull.

- `remove_shaped`: the shape and the entries.
- `remove_parentsRight_iff`: the parents.
-/

namespace OneBase

namespace BPlusTree

open BTree

variable {K V : Type} [LinearOrder K] [Inhabited K] [Inhabited V] {h : Nat}

/-! ## Pages that can be reached -/

/-- The page can be reached from the root through the slots of internal pages. -/
inductive Reachable (s : BPlusTree K V) : PageId → Prop where
  | root : s.rootPageId ≠ invalidPageId → Reachable s s.rootPageId
  | child {p : PageId} {page : InternalPage K} {e : K × PageId} :
      Reachable s p → s.pages p = some (.internal page) → e ∈ page.array → Reachable s e.2

/-- **The parents are right**: the root has none, and the parent of any other page that can be
reached is the page that lists it. -/
structure ParentsRight (s : BPlusTree K V) : Prop where
  root : s.rootPageId ≠ invalidPageId →
    ∃ page, s.pages s.rootPageId = some page ∧ page.getParentPageId = invalidPageId
  child : ∀ (p : PageId) (page : InternalPage K) (e : K × PageId), s.Reachable p →
    s.pages p = some (.internal page) → e ∈ page.array →
    ∃ child, s.pages e.2 = some child ∧ child.getParentPageId = p

section Reach

omit [LinearOrder K] [Inhabited K] [Inhabited V]

variable {s : BPlusTree K V}

/-- The slots of a page of the tree lead to pages of the tree. -/
theorem slot_mem_ids {p : PageId} {page : InternalPage K} {e : K × PageId} (he : e ∈ page.array) :
    ∀ {h : Nat} {t : BTree K V h}, (p, .internal page) ∈ t.pages → e.2 ∈ t.ids
  | 0, t, hmem => by
    obtain ⟨id, leafPage, rfl⟩ := t.exists_leaf
    cases List.mem_singleton.mp hmem
  | h + 1, t, hmem => by
    obtain ⟨id, m, q, cs, rfl⟩ := t.exists_node
    rw [ids_node]
    refine List.mem_cons_of_mem _ (List.mem_flatMap.mpr ?_)
    rcases List.mem_cons.mp hmem with heq | hmem
    · obtain ⟨-, rfl⟩ : p = id ∧ page = ⟨m, q, slots cs⟩ := by simpa using heq
      obtain ⟨c, hc, rfl⟩ := List.mem_map.mp he
      exact ⟨c, hc, id_mem_ids _⟩
    · obtain ⟨c, hc, hmem⟩ := List.mem_flatMap.mp hmem
      exact ⟨c, hc, slot_mem_ids he hmem⟩

theorem Reachable.root_ne {p : PageId} (hreach : s.Reachable p) : s.rootPageId ≠ invalidPageId := by
  induction hreach with
  | root hne => exact hne
  | child _ _ _ ih => exact ih

/-- Only the pages of the tree can be reached. -/
theorem Reachable.mem_ids {t : BTree K V h} (hroot : s.rootPageId = t.id) (hrep : t.Rep s.pages)
    {p : PageId} (hreach : s.Reachable p) : p ∈ t.ids := by
  induction hreach with
  | root => exact hroot ▸ id_mem_ids t
  | @child p page e _ hpage he ih =>
    obtain ⟨⟨q, page'⟩, hmem, rfl⟩ := List.mem_map.mp ih
    obtain rfl : page' = .internal page := by
      have hpage' := hrep _ hmem
      rw [hpage] at hpage'
      exact (Option.some.inj hpage').symm
    exact slot_mem_ids he hmem

/-- Every page of the tree can be reached. -/
theorem reachable_of_mem_ids : ∀ {h : Nat} {t : BTree K V h}, t.Rep s.pages → s.Reachable t.id →
    ∀ {p : PageId}, p ∈ t.ids → s.Reachable p
  | 0, t, _, hreach, p, hp => by
    obtain ⟨id, page, rfl⟩ := t.exists_leaf
    rw [List.mem_singleton.mp hp]
    exact hreach
  | h + 1, t, hrep, hreach, p, hp => by
    obtain ⟨id, m, q, cs, rfl⟩ := t.exists_node
    rw [ids_node] at hp
    rcases List.mem_cons.mp hp with rfl | hp
    · exact hreach
    · obtain ⟨hpage, hchildren⟩ := rep_node.mp hrep
      obtain ⟨c, hc, hp⟩ := List.mem_flatMap.mp hp
      refine reachable_of_mem_ids (hchildren c hc) ?_ hp
      exact .child hreach hpage (List.mem_map.mpr ⟨c, hc, rfl⟩)

/-- Links, in the words of the store. -/
theorem links_iff_pages : ∀ {h : Nat} {t : BTree K V h}, t.Rep s.pages →
    (t.Links ↔ ∀ (p : PageId) (page : InternalPage K) (e : K × PageId),
      (p, .internal page) ∈ t.pages → e ∈ page.array →
      ∃ child, s.pages e.2 = some child ∧ child.getParentPageId = p)
  | 0, t, _ => by
    obtain ⟨id, leafPage, rfl⟩ := t.exists_leaf
    refine iff_of_true trivial fun p page e hmem _ => ?_
    cases List.mem_singleton.mp hmem
  | h + 1, t, hrep => by
    obtain ⟨id, m, q, cs, rfl⟩ := t.exists_node
    have hchildren := (rep_node.mp hrep).2
    rw [links_node]
    constructor
    · intro hlinks p page e hmem he
      rcases List.mem_cons.mp hmem with heq | hmem
      · obtain ⟨rfl, rfl⟩ : p = id ∧ page = ⟨m, q, slots cs⟩ := by simpa using heq
        obtain ⟨c, hc, rfl⟩ := List.mem_map.mp he
        exact ⟨c.2.page, (hchildren c hc).page, (hlinks c hc).1⟩
      · obtain ⟨c, hc, hmem⟩ := List.mem_flatMap.mp hmem
        exact (links_iff_pages (hchildren c hc)).mp (hlinks c hc).2 p page e hmem he
    · intro hall c hc
      constructor
      · obtain ⟨child, hchild, hparent⟩ := hall id ⟨m, q, slots cs⟩ (c.1, c.2.id)
          List.mem_cons_self (List.mem_map.mpr ⟨c, hc, rfl⟩)
        have hpage := (hchildren c hc).page
        rw [hchild] at hpage
        rw [BTree.parent, ← Option.some.inj hpage]
        exact hparent
      · refine (links_iff_pages (hchildren c hc)).mpr fun p page e hmem he => ?_
        exact hall p page e (List.mem_cons_of_mem _ (List.mem_flatMap.mpr ⟨c, hc, hmem⟩)) he

/-- **The parents of the pages, in the store and in the tree.** -/
theorem parentsRight_iff {t : BTree K V h} (hroot : s.rootPageId = t.id)
    (hne : t.id ≠ invalidPageId) (hrep : t.Rep s.pages) :
    s.ParentsRight ↔ t.parent = invalidPageId ∧ t.Links := by
  have hreach : s.Reachable t.id := hroot ▸ .root (hroot ▸ hne)
  have hpage : s.pages s.rootPageId = some t.page := hroot ▸ hrep.page
  rw [links_iff_pages hrep]
  constructor
  · intro hright
    refine ⟨?_, fun p page e hmem he => ?_⟩
    · obtain ⟨page, hpage', hparent⟩ := hright.root (hroot ▸ hne)
      rw [hpage] at hpage'
      rw [BTree.parent, Option.some.inj hpage']
      exact hparent
    · exact hright.child p page e (reachable_of_mem_ids hrep hreach (List.mem_map_of_mem hmem))
        (hrep _ hmem) he
  · rintro ⟨hparent, hlinks⟩
    refine ⟨fun _ => ⟨t.page, hpage, hparent⟩, fun p page e hp hpage' he => ?_⟩
    obtain ⟨⟨q, page'⟩, hmem, rfl⟩ := List.mem_map.mp (hp.mem_ids hroot hrep)
    obtain rfl : page' = .internal page := by
      have hpage := hrep _ hmem
      rw [hpage'] at hpage
      exact (Option.some.inj hpage).symm
    exact hlinks q page e hmem he

end Reach

/-! ## The shape -/

section Remove

variable {s s' : BPlusTree K V} {t : BTree K V h} {key : K}

omit [Inhabited K] [Inhabited V] in
theorem WellFormed.id_ne (hwf : s.WellFormed t) : t.id ≠ invalidPageId := hwf.root ▸ hwf.root_ne

namespace RootRemoves

variable {h' : Nat} {t' : BTree K V h'}

omit [Inhabited V] in
theorem id_ne (hrem : RootRemoves s s' key t t') (hwf : s.WellFormed t) :
    t'.id ≠ invalidPageId := by
  intro heq
  have hneg := (hwf.alloc _ (hrem.ids.subset (id_mem_ids t'))).1
  rw [heq] at hneg
  exact absurd hneg (by decide)

omit [Inhabited V] in
theorem nodup (hrem : RootRemoves s s' key t t') (hwf : s.WellFormed t) : t'.ids.Nodup := by
  obtain ⟨ids, hperm, hsublist⟩ := hrem.ids
  exact hperm.nodup_iff.mp (hsublist.nodup hwf.nodup)

omit [Inhabited V] in
/-- **Where no internal page but the root became underfull**, the tree is well-formed. -/
theorem wellFormed (hrem : RootRemoves s s' key t t') (hwf : s.WellFormed t)
    (hcascades : ¬ Cascades key t) : s'.WellFormed t' := by
  have hsized := hrem.sized
  rw [← hrem.leafMaxSize, ← hrem.internalMaxSize] at hsized
  refine ⟨hrem.root, hrem.rep, hrem.nodup hwf, fun p hp => ?_, hrem.parent,
    hrem.links.mpr hcascades, hsized, hrem.ordered hcascades, hrem.chained hcascades⟩
  rw [hrem.next]
  exact hwf.alloc p (hrem.ids.subset hp)

end RootRemoves

omit [Inhabited K] [Inhabited V] in
/-- The entries without the one of a key. -/
theorem perm_filter_of_perm_cons {entries entries' : List (K × V)} {v : V}
    (hinc : Increasing entries) (hperm : entries.Perm ((key, v) :: entries')) :
    entries'.Perm (entries.filter fun e => e.1 ≠ key) := by
  have hnot : ∀ e ∈ entries', e.1 ≠ key := by
    have hdistinct : entries.Pairwise fun a b => a.1 ≠ b.1 := hinc.imp fun hlt => hlt.ne
    have hpair := (hperm.pairwise_iff fun hne => hne.symm).mp hdistinct
    exact fun e he => ((List.pairwise_cons.mp hpair).1 e he).symm
  have hself : (entries'.filter fun e => decide (e.1 ≠ key)) = entries' :=
    List.filter_eq_self.mpr fun e he => decide_eq_true (hnot e he)
  have hfilter := hperm.filter fun e => decide (e.1 ≠ key)
  rw [List.filter_cons_of_neg (by simp), hself] at hfilter
  exact hfilter.symm

omit [Inhabited K] [Inhabited V] in
theorem filter_eq_self_of_not_mem (hkey : key ∉ t.keys) :
    (t.entries.filter fun e => e.1 ≠ key) = t.entries := by
  rw [List.filter_eq_self]
  intro e he
  rw [decide_eq_true_eq]
  rintro rfl
  exact hkey (List.mem_map_of_mem he)

omit [Inhabited V] in
theorem RemovedRoot.parentsRight_iff {run : Option (BPlusTree K V)} (hrun : RemovedRoot s key t run)
    (hwf : s.WellFormed t) : ∃ s', run = some s' ∧ (s'.ParentsRight ↔ ¬ Cascades key t) := by
  cases hrun with
  | @absent log hkey =>
    have hwf' := hwf.setLog log
    refine ⟨_, rfl, iff_of_true ?_ fun hcascades => hkey hcascades.mem_keys⟩
    exact (BPlusTree.parentsRight_iff hwf'.root hwf'.id_ne hwf'.rep).mpr ⟨hwf.parent, hwf.links⟩
  | @emptied s' v hentries hroot hnext hleaf hinternal hcascades =>
    exact ⟨s', rfl, iff_of_true ⟨fun hne => absurd hroot hne,
      fun p page e hp => absurd hroot hp.root_ne⟩ hcascades⟩
  | @removed s' h' t' hrem =>
    refine ⟨s', rfl, ?_⟩
    rw [BPlusTree.parentsRight_iff hrem.root (hrem.id_ne hwf) hrem.rep, ← hrem.links]
    exact and_iff_right hrem.parent

/-- **The parents after `Remove`** are right, with all that it writes inside the pages, if and only
if it made no internal page underfull but the root, and no merge spilled. -/
theorem remove_parentsRight_iff (hwf : s.WellFormed t) (hmin : s.RootMin) (hlm : 2 ≤ s.leafMaxSize)
    (him : 3 ≤ s.internalMaxSize) (hlog : s.log.Ok []) (hpages : t.InPages) (key : K) :
    ∃ m, ∀ fuel, m ≤ fuel → ∃ s', s.remove fuel key = some s' ∧
      ((∀ w ∈ s.removeWrites fuel key, w.InBounds) ∧ s'.ParentsRight ↔
        ¬ Cascades key t ∧ ¬ Spills key t) := by
  refine ⟨h + 1, fun fuel hfuel => ?_⟩
  obtain ⟨s', hrun, hparents⟩ :=
    (remove_root hwf hmin hlm him hlog key hfuel).parentsRight_iff hwf
  refine ⟨s', hrun, ?_⟩
  rw [removeWrites_inBounds_iff hwf hmin hpages hlm him hlog key hfuel, hparents]
  exact and_comm

end Remove

/-! ## A tree of three levels -/

/-- Every page but the root has as few slots as it may have. -/
def sparseTree : BTree Int RID 2 :=
  node 6 3 invalidPageId
    [(0, node 4 3 6 [(0, leaf 0 ⟨2, 4, 1, [(0, {})]⟩), (1, leaf 1 ⟨2, 4, 2, [(1, {})]⟩)]),
      (2, node 5 3 6
        [(0, leaf 2 ⟨2, 5, 3, [(2, {})]⟩), (3, leaf 3 ⟨2, 5, invalidPageId, [(3, {})]⟩)])]

theorem sparseTree_wellFormed : (ofTree sparseTree 2 3 7).WellFormed sparseTree := by
  refine wellFormed_ofTree ?_ ?_ rfl ?_ ?_ ?_ ?_
  all_goals decide

theorem sparseTree_rootMin : (ofTree sparseTree 2 3 7).RootMin :=
  (rootMin_iff sparseTree_wellFormed.root sparseTree_wellFormed.id_ne
    sparseTree_wellFormed.rep).mpr (by decide)

theorem sparseTree_inPages : sparseTree.InPages := by decide

/-- An absent key leaves the parents right. -/
theorem remove_parentsRight_iff_absent :
    ¬ Cascades 9 sparseTree ∧ ¬ Spills 9 sparseTree ∧
      ∃ fuel s', (ofTree sparseTree 2 3 7).remove fuel 9 = some s' ∧ s'.ParentsRight := by
  have hcascades : ¬ Cascades 9 sparseTree := by decide
  have hspills : ¬ Spills 9 sparseTree := by decide
  obtain ⟨m, hm⟩ := remove_parentsRight_iff sparseTree_wellFormed sparseTree_rootMin (Nat.le_refl 2)
    (Nat.le_refl 3) ⟨rfl, trivial⟩ sparseTree_inPages 9
  obtain ⟨s', hrun, hright⟩ := hm m (Nat.le_refl m)
  exact ⟨hcascades, hspills, m, s', hrun, (hright.mpr ⟨hcascades, hspills⟩).2⟩

/-- The two internal pages below the root are merged, and their children get the old root as
their parent. -/
theorem remove_parents_wrong :
    ¬ ∀ (h : Nat) (t : BTree Int RID h) (s : BPlusTree Int RID) (key : Int), s.WellFormed t →
      s.RootMin → s.RootMax → 2 ≤ s.leafMaxSize → 3 ≤ s.internalMaxSize → s.log.Ok [] →
      ∃ m, ∀ fuel, m ≤ fuel → ∃ s', s.remove fuel key = some s' ∧ s'.ParentsRight := by
  intro hall
  have hcascades : Cascades 0 sparseTree := by decide
  obtain ⟨m, hm⟩ := hall 2 sparseTree (ofTree sparseTree 2 3 7) 0 sparseTree_wellFormed
    sparseTree_rootMin (sparseTree_wellFormed.rootMax_iff.mpr (by decide)) (Nat.le_refl 2)
    (Nat.le_refl 3) ⟨rfl, trivial⟩
  obtain ⟨s', hrun, hright⟩ := hm (m + 3) (Nat.le_add_right m 3)
  obtain ⟨s'', hrun', hiff⟩ := (remove_root sparseTree_wellFormed sparseTree_rootMin (Nat.le_refl 2)
    (Nat.le_refl 3) ⟨rfl, trivial⟩ 0 (Nat.le_add_left 3 m)).parentsRight_iff sparseTree_wellFormed
  obtain rfl : s' = s'' := Option.some.inj (hrun.symm.trans hrun')
  exact hiff.mp hright hcascades

end BPlusTree

end OneBase
