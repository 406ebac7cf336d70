import Mathlib.Data.Int.Order.Basic
import OneBase.Index.InsertBounds

/-!
# `Insert` keeps the tree well-formed

The descent and the recursion of `InsertIntoParent` follow the same path, so one induction
on the height covers both: what `Insert` does below a page is done when the page is
reached again, or a call of `InsertIntoParent` on its parent remains.

- `Wrote`: the store has the new children, and the rest of it is as before.
- `insertFrom_spec`: `Insert` below a page that is not the root.
- `insert_holds`: `Insert`.
-/

namespace OneBase

namespace BPlusTree

open BTree

variable {K V : Type} {h : Nat}

/-! ## The store -/

/-- The pages `old` gave way to the children `new`, with fresh pages where needed; the rest
of the store is as it was. -/
structure Wrote (s s₁ : BPlusTree K V) (old : List PageId) (new : List (K × BTree K V h)) :
    Prop where
  rep : ∀ c ∈ new, c.2.Rep s₁.pages
  frame : ∀ p, p < s.nextPageId → p ∉ old → s₁.pages p = s.pages p
  next : s.nextPageId ≤ s₁.nextPageId
  ids : ∃ fresh, (new.flatMap fun c => c.2.ids).Perm (old ++ fresh) ∧ fresh.Nodup ∧
    ∀ p ∈ fresh, s.nextPageId ≤ p ∧ p < s₁.nextPageId
  leafMaxSize : s₁.leafMaxSize = s.leafMaxSize
  internalMaxSize : s₁.internalMaxSize = s.internalMaxSize
  root : s₁.rootPageId = s.rootPageId

namespace Wrote

variable {s s₁ s₂ : BPlusTree K V} {old : List PageId} {new : List (K × BTree K V h)}

/-- The pages are distinct and allocated. -/
theorem alloc (hw : Wrote s s₁ old new) (hnext : 0 ≤ s.nextPageId) (hnodup : old.Nodup)
    (halloc : ∀ p ∈ old, 0 ≤ p ∧ p < s.nextPageId) :
    (new.flatMap fun c => c.2.ids).Nodup ∧
      ∀ p ∈ new.flatMap (fun c => c.2.ids), 0 ≤ p ∧ p < s₁.nextPageId := by
  obtain ⟨fresh, hperm, hfresh, hrange⟩ := hw.ids
  constructor
  · rw [hperm.nodup_iff, List.nodup_append]
    refine ⟨hnodup, hfresh, fun p hp q hq => ?_⟩
    exact Int.ne_of_lt (Int.lt_of_lt_of_le (halloc p hp).2 (hrange q hq).1)
  · intro p hp
    rcases List.mem_append.mp (hperm.mem_iff.mp hp) with hp | hp
    · exact ⟨(halloc p hp).1, Int.lt_of_lt_of_le (halloc p hp).2 hw.next⟩
    · exact ⟨Int.le_trans hnext (hrange p hp).1, (hrange p hp).2⟩

/-- An old page outside is not one of the new ones. -/
theorem not_mem (hw : Wrote s s₁ old new) {p : PageId} (hp : p ∉ old) (hlt : p < s.nextPageId) :
    p ∉ new.flatMap fun c => c.2.ids := by
  obtain ⟨fresh, hperm, -, hrange⟩ := hw.ids
  rw [hperm.mem_iff, List.mem_append]
  rintro (hp' | hp')
  · exact hp hp'
  · exact absurd hlt (Int.not_lt.mpr (hrange p hp').1)

/-- **The siblings of the old child are still there.** -/
theorem children {l r : List (K × BTree K V h)} {c : K × BTree K V h}
    (hw : Wrote s s₁ c.2.ids new) (hrep : ∀ x ∈ l ++ c :: r, x.2.Rep s.pages)
    (hnodup : ((l ++ c :: r).flatMap fun c => c.2.ids).Nodup)
    (halloc : ∀ p ∈ (l ++ c :: r).flatMap (fun c => c.2.ids), p < s.nextPageId) :
    Wrote s s₁ ((l ++ c :: r).flatMap fun c => c.2.ids) (l ++ (new ++ r)) := by
  have hsibling : ∀ x ∈ l ++ r, x.2.Rep s₁.pages := by
    intro x hx
    have hmem : x ∈ l ++ c :: r := by
      rcases List.mem_append.mp hx with hx | hx
      · exact List.mem_append_left _ hx
      · exact List.mem_append_right _ (List.mem_cons_of_mem _ hx)
    refine (hrep x hmem).congr fun p hp =>
      hw.frame p (halloc p (List.mem_flatMap.mpr ⟨x, hmem, hp⟩)) ?_
    exact not_mem_ids_of_sibling hnodup hx hp
  refine ⟨fun x hx => ?_, fun p hlt hp => hw.frame p hlt fun hpc => hp ?_, hw.next, ?_,
    hw.leafMaxSize, hw.internalMaxSize, hw.root⟩
  · rcases List.mem_append.mp hx with hx | hx
    · exact hsibling x (List.mem_append_left _ hx)
    · rcases List.mem_append.mp hx with hx | hx
      · exact hw.rep x hx
      · exact hsibling x (List.mem_append_right _ hx)
  · exact List.mem_flatMap.mpr ⟨c, by simp, hpc⟩
  · obtain ⟨fresh, hperm, hfresh⟩ := hw.ids
    refine ⟨fresh, ?_, hfresh⟩
    simp only [List.flatMap_append, List.flatMap_cons, List.append_assoc]
    refine List.Perm.append_left _ ?_
    refine (hperm.append_right _).trans ?_
    rw [List.append_assoc]
    exact List.perm_append_comm.append_left _

/-- **The page above the children has them in its slots.** -/
theorem node {cs cs' : List (K × BTree K V h)} {id p : PageId} {m : Nat}
    (hw : Wrote s s₁ (cs.flatMap fun c => c.2.ids) cs') (hid : id < s.nextPageId)
    (hnot : id ∉ cs.flatMap fun c => c.2.ids)
    (hpage : s₂.pages id = some (.internal ⟨m, p, slots cs'⟩))
    (hsame : ∀ q, q ≠ id → s₂.pages q = s₁.pages q) (hnext : s₂.nextPageId = s₁.nextPageId)
    (hleaf : s₂.leafMaxSize = s₁.leafMaxSize) (hinternal : s₂.internalMaxSize = s₁.internalMaxSize)
    (hroot : s₂.rootPageId = s₁.rootPageId) (k₀ : K) :
    Wrote s s₂ (BTree.node id m p cs).ids [(k₀, BTree.node id m p cs')] := by
  rw [ids_node]
  refine ⟨fun c hc => ?_, fun q hlt hq => ?_, hnext ▸ hw.next, ?_, hleaf.trans hw.leafMaxSize,
    hinternal.trans hw.internalMaxSize, hroot.trans hw.root⟩
  · rw [List.mem_singleton.mp hc]
    refine rep_node.mpr ⟨hpage, fun x hx => (hw.rep x hx).congr fun q hq => hsame q ?_⟩
    rintro rfl
    exact hw.not_mem hnot hid (List.mem_flatMap.mpr ⟨x, hx, hq⟩)
  · rw [List.mem_cons, not_or] at hq
    rw [hsame q hq.1, hw.frame q hlt hq.2]
  · obtain ⟨fresh, hperm, hfresh, hrange⟩ := hw.ids
    refine ⟨fresh, ?_, hfresh, fun q hq => hnext ▸ hrange q hq⟩
    rw [List.flatMap_singleton, ids_node]
    exact hperm.cons id

variable [Inhabited K]

/-- **The page above the children was split.** -/
theorem split {cs a b : List (K × BTree K V h)} {x : K × BTree K V h} {id p q : PageId} {m : Nat}
    (hw : Wrote s s₁ (cs.flatMap fun c => c.2.ids) (a ++ x :: b)) (hid : id < s.nextPageId)
    (hnot : id ∉ cs.flatMap fun c => c.2.ids)
    (hnodup : ((a ++ x :: b).flatMap fun c => c.2.ids).Nodup)
    (halloc : ∀ p ∈ (a ++ x :: b).flatMap (fun c => c.2.ids), p < s₁.nextPageId)
    (hpages : s₂.pages = splitPages s₁.pages id s₁.nextPageId m p q a x.2 b)
    (hnext : s₂.nextPageId = s₁.nextPageId + 1) (hleaf : s₂.leafMaxSize = s₁.leafMaxSize)
    (hinternal : s₂.internalMaxSize = s₁.internalMaxSize)
    (hroot : s₂.rootPageId = s₁.rootPageId) (k₀ k₁ : K) :
    Wrote s s₂ (BTree.node id m p cs).ids
      [(k₀, BTree.node id m p a),
        (k₁, BTree.node s₁.nextPageId m q (adopt s₁.nextPageId ((default, x.2) :: b)))] := by
  have hidnot := hw.not_mem hnot hid
  have hidnew : id ≠ s₁.nextPageId := Int.ne_of_lt (Int.lt_of_lt_of_le hid hw.next)
  -- a page below the children is none of the two pages
  have hother : ∀ c ∈ a ++ x :: b, ∀ i ∈ c.2.ids, i ≠ s₁.nextPageId ∧ i ≠ id := by
    intro c hc i hi
    have hmem : i ∈ (a ++ x :: b).flatMap fun c => c.2.ids := List.mem_flatMap.mpr ⟨c, hc, hi⟩
    refine ⟨Int.ne_of_lt (halloc i hmem), ?_⟩
    rintro rfl
    exact hidnot hmem
  have hmoved : ∀ i, (i = x.2.id ∨ i ∈ b.map fun c => c.2.id) → ∃ c ∈ x :: b, i = c.2.id := by
    rintro i (rfl | hi)
    · exact ⟨x, List.mem_cons_self, rfl⟩
    · obtain ⟨c, hc, rfl⟩ := List.mem_map.mp hi
      exact ⟨c, List.mem_cons_of_mem _ hc, rfl⟩
  simp only [List.flatMap_append] at hnodup
  rw [List.nodup_append] at hnodup
  obtain ⟨-, hnodupb, hab⟩ := hnodup
  -- the children of the left half keep their parent
  have hleft : ∀ c ∈ a, c.2.Rep s₂.pages := by
    intro c hc
    refine (hw.rep c (List.mem_append_left _ hc)).congr fun i hi => ?_
    obtain ⟨hi₁, hi₂⟩ := hother c (List.mem_append_left _ hc) i hi
    rw [hpages, splitPages, if_neg hi₁, if_neg hi₂, if_neg]
    intro hmv
    obtain ⟨c', hc', rfl⟩ := hmoved i hmv
    exact hab _ (List.mem_flatMap.mpr ⟨c, hc, hi⟩) _
      (List.mem_flatMap.mpr ⟨c', hc', id_mem_ids _⟩) rfl
  have hright : ∀ c ∈ adopt s₁.nextPageId ((default, x.2) :: b), c.2.Rep s₂.pages := by
    have hrep : ∀ c ∈ ((default : K), x.2) :: b, c.2.Rep s₁.pages := by
      intro c hc
      rcases List.mem_cons.mp hc with rfl | hc
      · exact hw.rep x (by simp)
      · exact hw.rep c (by simp [hc])
    refine rep_adopt hrep (by simpa using hnodupb) fun i hi => ?_
    have hmem : ∃ c ∈ a ++ x :: b, i ∈ c.2.ids := by
      obtain ⟨c, hc, hi⟩ := List.mem_flatMap.mp hi
      rcases List.mem_cons.mp hc with rfl | hc
      · exact ⟨x, by simp, hi⟩
      · exact ⟨c, by simp [hc], hi⟩
    obtain ⟨c, hc, hi⟩ := hmem
    obtain ⟨hi₁, hi₂⟩ := hother c hc i hi
    rw [hpages, splitPages, if_neg hi₁, if_neg hi₂]
    simp only [List.map_cons, List.mem_cons]
  rw [ids_node]
  refine ⟨?_, fun i hlt hi => ?_, ?_, ?_, hleaf.trans hw.leafMaxSize,
    hinternal.trans hw.internalMaxSize, hroot.trans hw.root⟩
  · simp only [List.forall_mem_cons]
    refine ⟨rep_node.mpr ⟨?_, hleft⟩, rep_node.mpr ⟨?_, fun c hc => ?_⟩,
      fun _ hc => absurd hc List.not_mem_nil⟩
    · rw [hpages, splitPages, if_neg hidnew, if_pos rfl]
    · rw [hpages, splitPages, if_pos rfl]
      simp [adopt, slots]
    · exact hright c hc
  · rw [List.mem_cons, not_or] at hi
    rw [hpages, splitPages, if_neg (Int.ne_of_lt (Int.lt_of_lt_of_le hlt hw.next)), if_neg hi.1,
      if_neg, hw.frame i hlt hi.2]
    intro hmv
    obtain ⟨c', hc', rfl⟩ := hmoved i hmv
    exact hw.not_mem hi.2 hlt
      (List.mem_flatMap.mpr ⟨c', List.mem_append_right _ hc', id_mem_ids _⟩)
  · rw [hnext]
    exact Int.le_trans hw.next (Int.le_of_lt (Int.lt_succ _))
  · obtain ⟨fresh, hperm, hfresh, hrange⟩ := hw.ids
    refine ⟨s₁.nextPageId :: fresh, ?_, List.nodup_cons.mpr ⟨fun hmem => ?_, hfresh⟩,
      fun i hi => ?_⟩
    · simp only [List.flatMap_cons, List.flatMap_nil, List.append_nil, ids_node, adopt,
        List.flatMap_map, List.map_cons, ids_setParent, List.cons_append]
      simp only [List.flatMap_append, List.flatMap_cons] at hperm
      refine List.Perm.cons id ?_
      exact List.perm_middle.trans ((hperm.cons _).trans List.perm_middle.symm)
    · exact absurd (hrange _ hmem).2 (Int.lt_irrefl _)
    · rcases List.mem_cons.mp hi with rfl | hi
      · exact ⟨hw.next, hnext ▸ Int.lt_succ _⟩
      · exact ⟨(hrange i hi).1, hnext ▸ Int.lt_trans (hrange i hi).2 (Int.lt_succ _)⟩

omit [Inhabited K] in
/-- **A leaf was written.** -/
theorem leaf {id : PageId} {page page' : LeafPage K V}
    (hpages : s₁.pages = Function.update s.pages id (some (.leaf page')))
    (hnext : s₁.nextPageId = s.nextPageId) (hleaf : s₁.leafMaxSize = s.leafMaxSize)
    (hinternal : s₁.internalMaxSize = s.internalMaxSize) (hroot : s₁.rootPageId = s.rootPageId)
    (k₀ : K) : Wrote s s₁ (BTree.leaf id page).ids [(k₀, BTree.leaf id page')] where
  rep := fun c hc => by
    rw [List.mem_singleton.mp hc]
    refine rep_leaf ?_
    rw [hpages, Function.update_self]
  frame := fun p _ hp => by
    rw [hpages, Function.update_of_ne]
    rintro rfl
    exact hp List.mem_cons_self
  next := hnext ▸ Int.le_refl _
  ids := ⟨[], List.Perm.refl _, .nil, fun _ hp => absurd hp List.not_mem_nil⟩
  leafMaxSize := hleaf
  internalMaxSize := hinternal
  root := hroot

omit [Inhabited K] in
/-- **A leaf was split.** -/
theorem splitLeaf {id : PageId} {page left right : LeafPage K V} (hid : id < s.nextPageId)
    (hpages : s₁.pages = splitLeafPages s.pages id s.nextPageId left right)
    (hnext : s₁.nextPageId = s.nextPageId + 1) (hleaf : s₁.leafMaxSize = s.leafMaxSize)
    (hinternal : s₁.internalMaxSize = s.internalMaxSize) (hroot : s₁.rootPageId = s.rootPageId)
    (k₀ k₁ : K) : Wrote s s₁ (BTree.leaf id page).ids
      [(k₀, BTree.leaf id left), (k₁, BTree.leaf s.nextPageId right)] where
  rep := by
    simp only [List.forall_mem_cons]
    refine ⟨rep_leaf ?_, rep_leaf ?_, fun _ hc => absurd hc List.not_mem_nil⟩
    · rw [hpages, splitLeafPages, if_neg (Int.ne_of_lt hid), if_pos rfl]
    · rw [hpages, splitLeafPages, if_pos rfl]
  frame := fun p hlt hp => by
    rw [hpages, splitLeafPages, if_neg (Int.ne_of_lt hlt), if_neg]
    rintro rfl
    exact hp List.mem_cons_self
  next := hnext ▸ Int.le_of_lt (Int.lt_succ _)
  ids := ⟨[s.nextPageId], List.Perm.refl _, List.nodup_singleton _, fun p hp => by
    rw [List.mem_singleton.mp hp, hnext]
    exact ⟨Int.le_refl _, Int.lt_succ _⟩⟩
  leafMaxSize := hleaf
  internalMaxSize := hinternal
  root := hroot

end Wrote

variable [LinearOrder K] [Inhabited K] [Inhabited V]

/-! ## `Insert` below a page -/

/-- What `Insert` did to the subtree `t` at the slot with the key `k₀`: nothing, or one
subtree is in its place, or two are and the call of `InsertIntoParent` remains. -/
inductive Inserted (s : BPlusTree K V) (key : K) (value : V) (k₀ : K) (t : BTree K V h) (n : Nat) :
    Option (Bool × BPlusTree K V) → Prop where
  | duplicate {log : GuardLog} :
      key ∈ t.keys → log.Ok [] → Inserted s key value k₀ t n (some (false, { s with log }))
  | room {s₁ : BPlusTree K V} {t₁ : BTree K V h} :
      key ∉ t.keys → Grows s.leafMaxSize s.internalMaxSize key value k₀ t [(k₀, t₁)] →
      Wrote s s₁ t.ids [(k₀, t₁)] → s₁.log.Ok [] →
      Inserted s key value k₀ t n (some (true, s₁))
  | split {s₁ : BPlusTree K V} {t₁ t₂ : BTree K V h} {k₁ : K} :
      key ∉ t.keys → Grows s.leafMaxSize s.internalMaxSize key value k₀ t [(k₀, t₁), (k₁, t₂)] →
      Wrote s s₁ t.ids [(k₀, t₁), (k₁, t₂)] → s₁.log.Ok [] →
      Inserted s key value k₀ t n
        ((s₁.insertIntoParent n t.parent t.id k₁ t₂.id).map fun s => (true, s))

theorem exists_split_at {α : Type} {xs : List α} {i n : Nat} (hlen : xs.length = n) (hi : i < n) :
    ∃ a x b, xs = a ++ x :: b ∧ a.length = i ∧ a.length + b.length + 1 = n := by
  subst hlen
  have hsplit : xs = xs.take i ++ xs[i] :: xs.drop (i + 1) := by
    rw [← List.drop_eq_getElem_cons hi, List.take_append_drop]
  refine ⟨_, _, _, hsplit, by rw [List.length_take, Nat.min_eq_left (Nat.le_of_lt hi)], ?_⟩
  have hlength := congrArg List.length hsplit
  rw [List.length_append, List.length_cons] at hlength
  omega

section Leaf

variable {s : BPlusTree K V} {id : PageId} {page : LeafPage K V}

theorem insertIntoLeaf_spec (hsub : s.Sub (leaf id page)) (hfits : (leaf id page).Fits)
    (hparent : page.parentPageId ≠ invalidPageId) (hlm : 2 ≤ s.leafMaxSize)
    (hlog : s.log.Ok [(id, .write)]) (key : K) (value : V) (k₀ : K) (n : Nat) :
    Inserted s key value k₀ (leaf id page) n (s.insertIntoLeaf n id key value) := by
  have hpage : s.pages id = some (.leaf page) := hsub.rep.page
  have hmax : page.maxSize = s.leafMaxSize := hsub.sized
  have hinc : Increasing page.array := hsub.ordered
  have hid : id < s.nextPageId := (hsub.alloc id (id_mem_ids (leaf id page))).2
  have hkeys : (leaf id page).keys = page.array.map Prod.fst := by rw [keys, entries_leaf]
  obtain ⟨hmin, hle⟩ := fits_leaf.mp hfits
  rcases LeafPage.insert_cases hinc key value with
    ⟨hmem, hinsert⟩ | ⟨hmem, l, r, harray, hl, hr, hinsert⟩
  · rw [insertIntoLeaf_duplicate hpage hinsert]
    exact .duplicate (hkeys ▸ hmem) hlog.release_head
  · have hlen : page.array.length = l.length + r.length := by rw [harray, List.length_append]
    by_cases hroom : page.array.length < page.maxSize
    · rw [insertIntoLeaf_room hpage harray hinsert hroom]
      have hlen' : (l ++ (key, value) :: r).length = page.array.length + 1 := by
        simp only [List.length_append, List.length_cons]
        omega
      refine .room (hkeys ▸ hmem)
        (grows_leaf hmax harray hinc hl hr (fits_leaf.mpr ⟨?_, ?_⟩) k₀) ?_ hlog.release_head
      · show page.maxSize / 2 ≤ (l ++ (key, value) :: r).length
        omega
      · show (l ++ (key, value) :: r).length ≤ page.maxSize
        omega
      · refine Wrote.leaf ?_ ?_ ?_ ?_ ?_ k₀ <;> rfl
    · have hfull : page.maxSize ≤ page.array.length := Nat.not_lt.mp hroom
      have hlen' : (l ++ (key, value) :: r).length = l.length + r.length + 1 := by
        rw [List.length_append, List.length_cons, Nat.add_assoc]
      obtain ⟨a, x, b, hsplit, ha, hab⟩ :=
        exists_split_at hlen' (by omega : (l.length + r.length + 1) / 2 < _)
      obtain ⟨log, hlog', hrun⟩ :=
        insertIntoLeaf_split hpage harray hinsert hfull hsplit ha hparent (Int.ne_of_lt hid) hlog n
      rw [hrun]
      refine .split (hkeys ▸ hmem)
        (grows_leaf_split hmax harray hinc hl hr hsplit (by omega) (by omega) (by omega) (by omega)
          k₀ s.nextPageId) ?_ hlog'
      refine Wrote.splitLeaf hid ?_ ?_ ?_ ?_ ?_ k₀ x.1 <;> rfl

end Leaf

section Inner

variable {s s₁ : BPlusTree K V} {id p : PageId} {m : Nat} {cs l r new : List (K × BTree K V h)}
  {c : K × BTree K V h} {key : K} {value : V}

/-- What stands above a child into which an entry was inserted. -/
structure Above (s s₁ : BPlusTree K V) (key : K) (value : V) (id p : PageId)
    (cs cs' : List (K × BTree K V h)) : Prop where
  grown : GrownChildren s.leafMaxSize s.internalMaxSize key value id cs cs'
  wrote : Wrote s s₁ (cs.flatMap fun c => c.2.ids) cs'
  page : s₁.pages id = some (.internal ⟨s₁.internalMaxSize, p, slots cs⟩)
  nodup : (cs'.flatMap fun c => c.2.ids).Nodup
  alloc : ∀ q ∈ cs'.flatMap (fun c => c.2.ids), 0 ≤ q ∧ q < s₁.nextPageId
  child : ∀ c ∈ cs', c.2.id ≠ id ∧ c.2.id ≠ s₁.nextPageId

omit [Inhabited K] [Inhabited V] in
theorem Sub.above (hsub : s.Sub (node id m p cs)) (hroute : Route key cs l c r)
    (hlm : 2 ≤ s.leafMaxSize)
    (hgrows : Grows s.leafMaxSize s.internalMaxSize key value c.1 c.2 new)
    (hw : Wrote s s₁ c.2.ids new) : Above s s₁ key value id p cs (l ++ (new ++ r)) := by
  have hgrown := hgrows.children hlm hroute hsub.links hsub.sized.2.2 hsub.ordered.1 hsub.ordered.2
  have hm : m = s.internalMaxSize := hsub.sized.1
  obtain ⟨rfl, -, -⟩ := hroute
  have hwrote := hw.children (rep_node.mp hsub.rep).2 hsub.children_nodup
    fun q hq => (hsub.children_alloc q hq).2
  have hnext : 0 ≤ s.nextPageId := Int.le_trans hsub.id_alloc.1 (Int.le_of_lt hsub.id_alloc.2)
  obtain ⟨hnodup, halloc⟩ := hwrote.alloc hnext hsub.children_nodup hsub.children_alloc
  have hnot := hwrote.not_mem hsub.id_not_mem hsub.id_alloc.2
  refine ⟨hgrown, hwrote, ?_, hnodup, halloc, fun x hx => ?_⟩
  · rw [hw.internalMaxSize, ← hm, ← hsub.page]
    refine hw.frame id hsub.id_alloc.2 fun hmem => ?_
    exact hsub.id_not_mem (List.mem_flatMap.mpr ⟨c, by simp, hmem⟩)
  · have hmem : x.2.id ∈ (l ++ (new ++ r)).flatMap fun c => c.2.ids :=
      List.mem_flatMap.mpr ⟨x, hx, id_mem_ids _⟩
    refine ⟨?_, Int.ne_of_lt (halloc _ hmem).2⟩
    rintro heq
    exact hnot (heq ▸ hmem)

omit [LinearOrder K] [Inhabited K] [Inhabited V] in
theorem Wrote.of_descended {kind : GuardKind} {child : PageId} {old : List PageId}
    (hw : Wrote (s.descended kind id child) s₁ old new) : Wrote s s₁ old new :=
  ⟨hw.rep, hw.frame, hw.next, hw.ids, hw.leafMaxSize, hw.internalMaxSize, hw.root⟩

omit [Inhabited K] [Inhabited V] in
/-- **The child was not split**: the page above it stays as it is. -/
theorem Sub.room (hsub : s.Sub (node id m p cs)) (hfits : (node id m p cs).Fits)
    (hroute : Route key cs l c r) (hlm : 2 ≤ s.leafMaxSize) {t₁ : BTree K V h}
    (hgrows : Grows s.leafMaxSize s.internalMaxSize key value c.1 c.2 [(c.1, t₁)])
    (hw : Wrote s s₁ c.2.ids [(c.1, t₁)]) (k₀ : K) :
    let t' := node id m p (l ++ ([(c.1, t₁)] ++ r))
    Grows s.leafMaxSize s.internalMaxSize key value k₀ (node id m p cs) [(k₀, t')] ∧
      Wrote s s₁ (node id m p cs).ids [(k₀, t')] := by
  have habove := hsub.above hroute hlm hgrows hw
  obtain ⟨t₁', more, hnew, hid⟩ := hgrows.head
  obtain ⟨rfl, rfl⟩ : t₁ = t₁' ∧ more = [] := by simpa [eq_comm] using hnew
  have hm : m = s.internalMaxSize := hsub.sized.1
  obtain ⟨hmin, hmax⟩ := fits_node.mp hfits
  obtain ⟨rfl, -, -⟩ := hroute
  have hlen : (l ++ ([(c.1, t₁)] ++ r)).length = (l ++ c :: r).length := by simp
  have hslots : slots (l ++ ([(c.1, t₁)] ++ r)) = slots (l ++ c :: r) := by simp [slots, hid]
  subst hm
  refine ⟨habove.grown.fits (by rw [hlen]; exact hmin) (by rw [hlen]; exact hmax) k₀, ?_⟩
  refine habove.wrote.node hsub.id_alloc.2 hsub.id_not_mem ?_ (fun _ _ => rfl) rfl rfl rfl rfl k₀
  rw [hslots, habove.page, hw.internalMaxSize]

omit [Inhabited V] in
/-- **`InsertIntoParent`** on a page that is not the root. -/
theorem Sub.insertIntoParent (hsub : s.Sub (node id m p cs)) (hfits : (node id m p cs).Fits)
    (hp : p ≠ invalidPageId) (hroute : Route key cs l c r) (hkey : key ∉ (node id m p cs).keys)
    (hlm : 2 ≤ s.leafMaxSize) (him : 3 ≤ s.internalMaxSize) {t₁ t₂ : BTree K V h} {k₁ : K}
    (hgrows : Grows s.leafMaxSize s.internalMaxSize key value c.1 c.2 [(c.1, t₁), (k₁, t₂)])
    (hw : Wrote s s₁ c.2.ids [(c.1, t₁), (k₁, t₂)]) (hlog : s₁.log.Ok []) (k₀ : K) (n : Nat) :
    Inserted s key value k₀ (node id m p cs) n
      ((s₁.insertIntoParent (n + 1) id c.2.id k₁ t₂.id).map fun s => (true, s)) := by
  have habove := hsub.above hroute hlm hgrows hw
  obtain ⟨t₁', more, hnew, hid⟩ := hgrows.head
  obtain ⟨rfl, -⟩ : t₁ = t₁' ∧ more = [(k₁, t₂)] := by simpa [eq_comm] using hnew
  have hm : m = s.internalMaxSize := hsub.sized.1
  have him' : s₁.internalMaxSize = s.internalMaxSize := hw.internalMaxSize
  obtain ⟨hmin, hmax⟩ := fits_node.mp hfits
  obtain ⟨rfl, -, -⟩ := hroute
  subst hm
  have hlen : (l ++ ([(c.1, t₁), (k₁, t₂)] ++ r)).length = l.length + r.length + 2 := by
    simp only [List.length_append, List.length_cons, List.length_nil]
    omega
  have hlen' : (l ++ c :: r).length = l.length + r.length + 1 := by
    simp only [List.length_append, List.length_cons]
    omega
  rw [hlen'] at hmin hmax
  by_cases hroom : l.length + r.length + 2 ≤ s.internalMaxSize
  · have hpage := habove.page
    rw [him'] at hpage
    rw [insertIntoParent_room hpage hsub.distinct.1 hid hroom k₁ n]
    refine .room hkey (habove.grown.fits (by omega) (by omega) k₀) ?_ ?_
    · refine habove.wrote.node hsub.id_alloc.2 hsub.id_not_mem ?_ (fun q hq => ?_) ?_ ?_ ?_ ?_ k₀
      · exact Function.update_self ..
      · exact Function.update_of_ne hq _ _
      all_goals rfl
    · exact (hlog.acquire fun _ hg => absurd hg List.not_mem_nil).release_head
  · have hfull : s₁.internalMaxSize < l.length + r.length + 2 := by omega
    obtain ⟨a, x, b, hcs, ha, hab⟩ :=
      exists_split_at hlen (by omega : (l.length + r.length + 2) / 2 < _)
    have hchild := habove.child
    rw [hcs] at hchild habove
    obtain ⟨log, hlog', hrun⟩ :=
      insertIntoParent_split habove.page hsub.distinct.1 hid hfull hcs ha hp
      (Int.ne_of_lt (Int.lt_of_lt_of_le hsub.id_alloc.2 hw.next)) (hchild x (by simp))
      (fun y hy => hchild y (by simp [hy])) hlog n
    rw [hrun]
    have hgrown : Grows _ _ key value k₀ (BTree.node id s.internalMaxSize p (l ++ c :: r)) _ :=
      habove.grown.split (by omega) (by omega) (by omega) (by omega) (by omega) k₀ default
        s₁.nextPageId
    refine .split hkey hgrown ?_ ?_
    · refine habove.wrote.split hsub.id_alloc.2 hsub.id_not_mem habove.nodup
        (fun q hq => (habove.alloc q hq).2) ?_ ?_ ?_ ?_ ?_ k₀ x.1
      · rw [him']
      all_goals rfl
    · exact hlog'

end Inner

/-- `Insert` from a page that is fetched: the descent, and what follows at the leaf. -/
def insertFrom (s : BPlusTree K V) (m n : Nat) (p : PageId) (key : K) (value : V) :
    Option (Bool × BPlusTree K V) :=
  (s.findLeaf .write (·.lookup key) m p).bind fun x => x.2.insertIntoLeaf n x.1 key value

/-- The descent goes to the child that the key is routed to. -/
theorem insertFrom_node {s : BPlusTree K V} {id p : PageId} {im : Nat}
    {cs : List (K × BTree K V h)} {c : K × BTree K V h} {key : K}
    (hpage : s.pages id = some (.internal ⟨im, p, slots cs⟩))
    (hlookup : (⟨im, p, slots cs⟩ : InternalPage K).lookup key = c.2.id) (value : V) (m n : Nat) :
    s.insertFrom (m + 1) n id key value =
      (s.descended .write id c.2.id).insertFrom m n c.2.id key value := by
  rw [insertFrom, findLeaf_node hpage, hlookup]
  rfl

/-- **`Insert` below a page that is not the root**, by induction on the height. -/
theorem insertFrom_spec (key : K) (value : V) : ∀ {h : Nat} {t : BTree K V h} {s : BPlusTree K V},
    s.Sub t → t.Fits → t.parent ≠ invalidPageId → 2 ≤ s.leafMaxSize → 3 ≤ s.internalMaxSize →
    s.log.Ok [(t.id, .write)] → ∀ (k₀ : K) (m n : Nat),
    Inserted s key value k₀ t n (s.insertFrom (m + h + 1) (n + h) t.id key value)
  | 0, t, s, hsub, hfits, hparent, hlm, him, hlog, k₀, m, n => by
    obtain ⟨id, page, rfl⟩ := t.exists_leaf
    have hrun : s.insertFrom (m + 0 + 1) (n + 0) (leaf id page).id key value =
        s.insertIntoLeaf n id key value := by
      rw [insertFrom, findLeaf_leaf (show s.pages (leaf id page).id = some (.leaf page) from
        hsub.rep.page)]
      rfl
    rw [hrun]
    exact insertIntoLeaf_spec hsub hfits hparent hlm hlog key value k₀ n
  | h + 1, t, s, hsub, hfits, hparent, hlm, him, hlog, k₀, m, n => by
    obtain ⟨id, im, p, cs, rfl⟩ := t.exists_node
    obtain ⟨l, c, r, hdown⟩ := hsub.exists_descent hlog key
    show Inserted s key value k₀ (node id im p cs) n
      (s.insertFrom (m + h + 1 + 1) (n + (h + 1)) id key value)
    rw [insertFrom_node hsub.page hdown.lookup, show n + (h + 1) = (n + 1) + h by omega]
    have ih := insertFrom_spec key value hdown.child hdown.fits hdown.parent_ne hlm him
      hdown.log c.1 m (n + 1)
    generalize (s.descended .write id c.2.id).insertFrom (m + h + 1) (n + 1 + h) c.2.id key value =
      run at ih ⊢
    cases ih with
    | duplicate hmem hlog' => exact .duplicate (hdown.mem_keys.mpr hmem) hlog'
    | room hmem hgrows hw hlog' =>
      obtain ⟨hgrows', hw'⟩ := hsub.room hfits hdown.route hlm hgrows hw.of_descended k₀
      exact .room (fun hk => hmem (hdown.mem_keys.mp hk)) hgrows' hw' hlog'
    | split hmem hgrows hw hlog' =>
      rw [hdown.parent]
      exact hsub.insertIntoParent hfits hparent hdown.route (fun hk => hmem (hdown.mem_keys.mp hk))
        hlm him hgrows hw.of_descended hlog' k₀ n

/-! ## `Insert` -/

/-- What `Insert` did to the tree: nothing, or the entry is in it. -/
inductive InsertedRoot (s : BPlusTree K V) (key : K) (value : V) (t : BTree K V h) :
    Option (Bool × BPlusTree K V) → Prop where
  | duplicate {log : GuardLog} :
      key ∈ t.keys → log.Ok [] → InsertedRoot s key value t (some (false, { s with log }))
  | added {s' : BPlusTree K V} :
      key ∉ t.keys → s'.log.Ok [] → s'.leafMaxSize = s.leafMaxSize →
      s'.internalMaxSize = s.internalMaxSize →
      (t.page.getSize ≤ t.page.getMaxSize → ∃ (h' : Nat) (t' : BTree K V h'), s'.WellFormed t' ∧
        t'.page.getSize ≤ t'.page.getMaxSize ∧ (t.RootMin → t'.RootMin) ∧
        t'.entries.Perm ((key, value) :: t.entries)) →
      InsertedRoot s key value t (some (true, s'))

section Root

variable {s s₁ s₂ : BPlusTree K V} {key : K} {value : V}

omit [Inhabited V] in
/-- **A new root** above the halves of the old one. -/
theorem wellFormed_newRoot (s₁ : BPlusTree K V) {t t₁ t₂ : BTree K V h} {k₁ : K}
    (hwf : s.WellFormed t)
    (him : 3 ≤ s.internalMaxSize)
    (hgrows : Grows s.leafMaxSize s.internalMaxSize key value default t [(default, t₁), (k₁, t₂)])
    (hw : Wrote s s₁ t.ids (adopt s₁.nextPageId [(default, t₁), (k₁, t₂)]))
    (hpages : s₂.pages = Function.update s₁.pages s₁.nextPageId
      (some (.internal ⟨s.internalMaxSize, invalidPageId, [(default, t₁.id), (k₁, t₂.id)]⟩)))
    (hnext : s₂.nextPageId = s₁.nextPageId + 1) (hroot : s₂.rootPageId = s₁.nextPageId)
    (hleaf : s₂.leafMaxSize = s₁.leafMaxSize)
    (hinternal : s₂.internalMaxSize = s₁.internalMaxSize) :
    ∃ (h' : Nat) (t' : BTree K V h'), s₂.WellFormed t' ∧
      t'.page.getSize ≤ t'.page.getMaxSize ∧ (t.RootMin → t'.RootMin) ∧
      t'.entries.Perm ((key, value) :: t.entries) := by
  have hid := hwf.alloc t.id (id_mem_ids t)
  have hnonneg : 0 ≤ s.nextPageId := Int.le_trans hid.1 (Int.le_of_lt hid.2)
  obtain ⟨hnodup, halloc⟩ := hw.alloc hnonneg hwf.nodup hwf.alloc
  have hnot : s₁.nextPageId ∉
      (adopt s₁.nextPageId [(default, t₁), (k₁, t₂)]).flatMap fun c => c.2.ids :=
    fun hmem => absurd (halloc _ hmem).2 (Int.lt_irrefl _)
  obtain ⟨hlinks, hsized, hsize, hordered, hentries, hchain⟩ :=
    hgrows.newRoot (by omega) s₁.nextPageId
  refine ⟨_, node s₁.nextPageId s.internalMaxSize invalidPageId
    (adopt s₁.nextPageId [(default, t₁), (k₁, t₂)]), ?_, hsize,
    fun _ => rootMin_node.mpr (Nat.le_refl 2), hentries⟩
  refine ⟨hroot, rep_node.mpr ⟨?_, fun c hc => (hw.rep c hc).congr fun q hq => ?_⟩, ?_, ?_, rfl,
    hlinks, ?_, hordered, hchain _ hwf.chained⟩
  · rw [hpages, Function.update_self]
    simp [adopt, slots]
  · rw [hpages, Function.update_of_ne]
    rintro rfl
    exact hnot (List.mem_flatMap.mpr ⟨c, hc, hq⟩)
  · rw [ids_node]
    exact List.nodup_cons.mpr ⟨hnot, hnodup⟩
  · rw [ids_node, hnext]
    intro q hq
    rcases List.mem_cons.mp hq with rfl | hq
    · exact ⟨Int.le_trans hnonneg hw.next, Int.lt_succ _⟩
    · exact ⟨(halloc q hq).1, Int.lt_trans (halloc q hq).2 (Int.lt_succ _)⟩
  · rw [hleaf, hinternal, hw.leafMaxSize, hw.internalMaxSize]
    exact hsized

omit [Inhabited K] [Inhabited V] in
/-- The root is a leaf and gets an entry. -/
theorem WellFormed.insertLeaf {id : PageId} {page : LeafPage K V} {l r : List (K × V)}
    (hwf : s.WellFormed (leaf id page)) (harray : page.array = l ++ r) (hl : ∀ e ∈ l, e.1 < key)
    (hr : ∀ e ∈ r, key < e.1) (log : GuardLog) :
    WellFormed { s with
        pages := Function.update s.pages id
          (some (.leaf { page with array := l ++ (key, value) :: r }))
        log }
      (leaf id { page with array := l ++ (key, value) :: r }) := by
  have hinc : Increasing page.array := hwf.ordered
  exact ⟨hwf.root, rep_leaf (Function.update_self ..), hwf.nodup, hwf.alloc, hwf.parent, trivial,
    hwf.sized, increasing_insert (harray ▸ hinc) hl hr, hwf.chained⟩

/-- **The root is a leaf.** -/
theorem insert_root_leaf {id : PageId} {page : LeafPage K V} (hwf : s.WellFormed (leaf id page))
    (hlm : 2 ≤ s.leafMaxSize) (him : 3 ≤ s.internalMaxSize) (hlog : s.log.Ok [(id, .write)])
    (key : K) (value : V) (n : Nat) :
    InsertedRoot s key value (leaf id page) (s.insertIntoLeaf n id key value) := by
  have hpage : s.pages id = some (.leaf page) := hwf.rep.page
  have hmax : page.maxSize = s.leafMaxSize := hwf.sized
  have hinc : Increasing page.array := hwf.ordered
  have hid := hwf.alloc id (id_mem_ids (leaf id page))
  have hkeys : (leaf id page).keys = page.array.map Prod.fst := by rw [keys, entries_leaf]
  have hparent : page.parentPageId = invalidPageId := hwf.parent
  rcases LeafPage.insert_cases hinc key value with
    ⟨hmem, hinsert⟩ | ⟨hmem, l, r, harray, hl, hr, hinsert⟩
  · rw [insertIntoLeaf_duplicate hpage hinsert]
    exact .duplicate (hkeys ▸ hmem) hlog.release_head
  · have hlen : page.array.length = l.length + r.length := by rw [harray, List.length_append]
    by_cases hroom : page.array.length < page.maxSize
    · rw [insertIntoLeaf_room hpage harray hinsert hroom]
      refine .added (hkeys ▸ hmem) hlog.release_head rfl rfl fun _ =>
        ⟨0, leaf id { page with array := l ++ (key, value) :: r },
          hwf.insertLeaf harray hl hr _, ?_, fun _ => ?_, ?_⟩
      · show (l ++ (key, value) :: r).length ≤ page.maxSize
        simp only [List.length_append, List.length_cons]
        omega
      · exact List.length_pos_iff.mpr (by simp)
      · rw [entries_leaf, entries_leaf, harray]
        exact List.perm_middle
    · have hfull : page.maxSize ≤ page.array.length := Nat.not_lt.mp hroom
      have hlen' : (l ++ (key, value) :: r).length = l.length + r.length + 1 := by
        rw [List.length_append, List.length_cons, Nat.add_assoc]
      obtain ⟨a, x, b, hsplit, ha, hab⟩ :=
        exists_split_at hlen' (by omega : (l.length + r.length + 1) / 2 < _)
      obtain ⟨log, hlog', hrun⟩ :=
        insertIntoLeaf_split_root hpage harray hinsert hfull hsplit ha hparent hid.2 hlog n
      rw [hrun]
      refine .added (hkeys ▸ hmem) hlog' rfl rfl fun (hle : page.array.length ≤ page.maxSize) => ?_
      have hgrows : Grows s.leafMaxSize s.internalMaxSize key value default (leaf id page) _ :=
        grows_leaf_split hmax harray hinc hl hr hsplit (by omega) (by omega) (by omega) (by omega)
          default s.nextPageId
      let left : LeafPage K V :=
        { page with parentPageId := s.nextPageId + 1, nextPageId := s.nextPageId, array := a }
      let right : LeafPage K V := ⟨s.leafMaxSize, s.nextPageId + 1, page.nextPageId, x :: b⟩
      let s₁ : BPlusTree K V := { s with
        pages := splitLeafPages s.pages id s.nextPageId left right
        nextPageId := s.nextPageId + 1 }
      have hw : Wrote s s₁ (leaf id page).ids
          [(default, leaf id left), (x.1, leaf s.nextPageId right)] := by
        refine Wrote.splitLeaf hid.2 ?_ ?_ ?_ ?_ ?_ default x.1 <;> rfl
      exact wellFormed_newRoot s₁ hwf him hgrows hw rfl rfl rfl rfl rfl

omit [Inhabited V] in
/-- The root has new children and room for them. -/
theorem wellFormed_children {id : PageId} {m : Nat} {cs cs' : List (K × BTree K V h)}
    (hwf : s.WellFormed (node id m invalidPageId cs))
    (hgrown : GrownChildren s.leafMaxSize s.internalMaxSize key value id cs cs')
    (hlen : cs'.length ≤ m) (hle : cs.length ≤ cs'.length)
    (hw : Wrote s s₁ (node id m invalidPageId cs).ids
      [(default, node id m invalidPageId cs')]) :
    ∃ (h' : Nat) (t' : BTree K V h'), s₁.WellFormed t' ∧
      t'.page.getSize ≤ t'.page.getMaxSize ∧
      ((node id m invalidPageId cs).RootMin → t'.RootMin) ∧
      t'.entries.Perm ((key, value) :: (node id m invalidPageId cs).entries) := by
  have hid := hwf.alloc id (id_mem_ids (node id m invalidPageId cs))
  have hnonneg : 0 ≤ s.nextPageId := Int.le_trans hid.1 (Int.le_of_lt hid.2)
  obtain ⟨hnodup, halloc⟩ := hw.alloc hnonneg hwf.nodup hwf.alloc
  rw [List.flatMap_singleton] at hnodup halloc
  refine ⟨_, node id m invalidPageId cs', ⟨hw.root.trans hwf.root, hw.rep _ List.mem_cons_self,
    hnodup, halloc, rfl, hgrown.links, ?_, ⟨hgrown.separated, hgrown.ordered⟩, ?_⟩, ?_, ?_, ?_⟩
  · rw [hw.leafMaxSize, hw.internalMaxSize]
    refine ⟨hwf.sized.1, ?_, hgrown.sized⟩
    rintro rfl
    exact absurd hgrown.entries.length_eq (by simp)
  · have hchain := hwf.chained
    rw [chain_node] at hchain ⊢
    exact hgrown.chain _ hchain
  · rw [getSize_node]
    exact hlen
  · rw [rootMin_node, rootMin_node]
    exact fun hmin => Nat.le_trans hmin hle
  · rw [entries_node, entries_node]
    exact hgrown.entries

omit [Inhabited V] in
/-- **The child of the root was not split**: the root stays as it is. -/
theorem WellFormed.room {id : PageId} {m : Nat} {cs l r : List (K × BTree K V h)}
    {c : K × BTree K V h} (hwf : s.WellFormed (node id m invalidPageId cs))
    (hroute : Route key cs l c r) (hkey : key ∉ (node id m invalidPageId cs).keys)
    (hlm : 2 ≤ s.leafMaxSize) {t₁ : BTree K V h}
    (hgrows : Grows s.leafMaxSize s.internalMaxSize key value c.1 c.2 [(c.1, t₁)])
    (hw : Wrote s s₁ c.2.ids [(c.1, t₁)]) (hlog : s₁.log.Ok []) :
    InsertedRoot s key value (node id m invalidPageId cs) (some (true, s₁)) := by
  have hsub := hwf.sub
  have hm : m = s.internalMaxSize := hsub.sized.1
  have habove := hsub.above hroute hlm hgrows hw
  obtain ⟨t₁', more, hnew, hid⟩ := hgrows.head
  obtain ⟨rfl, rfl⟩ : t₁ = t₁' ∧ more = [] := by simpa [eq_comm] using hnew
  obtain ⟨rfl, -, -⟩ := hroute
  have hslots : slots (l ++ ([(c.1, t₁)] ++ r)) = slots (l ++ c :: r) := by simp [slots, hid]
  have hw' := habove.wrote.node (m := m) (p := invalidPageId) hsub.id_alloc.2 hsub.id_not_mem (by
    rw [hslots, habove.page, hw.internalMaxSize, hm]) (fun _ _ => rfl) rfl rfl rfl rfl default
  refine .added hkey hlog hw.leafMaxSize hw.internalMaxSize fun hmax =>
    wellFormed_children hwf habove.grown ?_ (by simp) hw'
  have hsize : (l ++ c :: r).length ≤ m := by
    rwa [getSize_node] at hmax
  simpa using hsize

omit [Inhabited V] in
/-- **`InsertIntoParent`** on the root. -/
theorem WellFormed.insertIntoParent {id : PageId} {m : Nat} {cs l r : List (K × BTree K V h)}
    {c : K × BTree K V h} (hwf : s.WellFormed (node id m invalidPageId cs))
    (hroute : Route key cs l c r) (hkey : key ∉ (node id m invalidPageId cs).keys)
    (hlm : 2 ≤ s.leafMaxSize) (him : 3 ≤ s.internalMaxSize) {t₁ t₂ : BTree K V h} {k₁ : K}
    (hgrows : Grows s.leafMaxSize s.internalMaxSize key value c.1 c.2 [(c.1, t₁), (k₁, t₂)])
    (hw : Wrote s s₁ c.2.ids [(c.1, t₁), (k₁, t₂)]) (hlog : s₁.log.Ok []) (n : Nat) :
    InsertedRoot s key value (node id m invalidPageId cs)
      ((s₁.insertIntoParent (n + 1) id c.2.id k₁ t₂.id).map fun s => (true, s)) := by
  have hsub := hwf.sub
  have hm : m = s.internalMaxSize := hsub.sized.1
  have habove := hsub.above hroute hlm hgrows hw
  have him' : s₁.internalMaxSize = s.internalMaxSize := hw.internalMaxSize
  obtain ⟨t₁', more, hnew, hid⟩ := hgrows.head
  obtain ⟨rfl, -⟩ : t₁ = t₁' ∧ more = [(k₁, t₂)] := by simpa [eq_comm] using hnew
  obtain ⟨rfl, -, -⟩ := hroute
  subst hm
  have hlen : (l ++ ([(c.1, t₁), (k₁, t₂)] ++ r)).length = l.length + r.length + 2 := by
    simp only [List.length_append, List.length_cons, List.length_nil]
    omega
  have hlen' : (l ++ c :: r).length = l.length + r.length + 1 := by
    simp only [List.length_append, List.length_cons]
    omega
  by_cases hroom : l.length + r.length + 2 ≤ s.internalMaxSize
  · have hpage := habove.page
    rw [him'] at hpage
    rw [insertIntoParent_room hpage hsub.distinct.1 hid hroom k₁ n]
    refine .added hkey ?_ hw.leafMaxSize hw.internalMaxSize fun _ =>
      wellFormed_children hwf habove.grown (by omega) (by omega) ?_
    · exact (hlog.acquire fun _ hg => absurd hg List.not_mem_nil).release_head
    · refine habove.wrote.node hsub.id_alloc.2 hsub.id_not_mem ?_ (fun q hq => ?_)
        ?_ ?_ ?_ ?_ default
      · exact Function.update_self ..
      · exact Function.update_of_ne hq _ _
      all_goals rfl
  · have hfull : s₁.internalMaxSize < l.length + r.length + 2 := by omega
    obtain ⟨a, x, b, hcs, ha, hab⟩ :=
      exists_split_at hlen (by omega : (l.length + r.length + 2) / 2 < _)
    have hchild := habove.child
    rw [hcs] at hchild habove
    obtain ⟨log, hlog', hrun⟩ := insertIntoParent_split_root habove.page hsub.distinct.1 hid hfull
      hcs ha (Int.lt_of_lt_of_le hsub.id_alloc.2 hw.next) (hchild x (by simp))
      (fun y hy => hchild y (by simp [hy])) hlog n
    rw [hrun]
    refine .added hkey hlog' hw.leafMaxSize hw.internalMaxSize fun hmax => ?_
    have hsize : (l ++ c :: r).length ≤ s.internalMaxSize := by
      rwa [getSize_node] at hmax
    have hgrows' : Grows _ _ key value default
        (BTree.node id s.internalMaxSize invalidPageId (l ++ c :: r)) _ :=
      habove.grown.split (by omega) (by omega) (by omega) (by omega) (by omega) default default
        s₁.nextPageId
    -- the two halves, before the page above them is written
    let s₂ : BPlusTree K V := { s₁ with
      pages := splitPages s₁.pages id s₁.nextPageId s.internalMaxSize (s₁.nextPageId + 1)
        (s₁.nextPageId + 1) a x.2 b
      nextPageId := s₁.nextPageId + 1 }
    have hw₂ : Wrote s s₂ (BTree.node id s.internalMaxSize (s₁.nextPageId + 1) (l ++ c :: r)).ids
        [(default, BTree.node id s.internalMaxSize (s₁.nextPageId + 1) a),
          (x.1, BTree.node s₁.nextPageId s.internalMaxSize (s₁.nextPageId + 1)
            (adopt s₁.nextPageId ((default, x.2) :: b)))] := by
      refine habove.wrote.split hsub.id_alloc.2 hsub.id_not_mem habove.nodup
        (fun q hq => (habove.alloc q hq).2) ?_ ?_ ?_ ?_ ?_ default x.1 <;> rfl
    rw [ids_node, ← @ids_node K V h id invalidPageId s.internalMaxSize] at hw₂
    refine wellFormed_newRoot s₂ hwf him hgrows' hw₂ ?_ rfl rfl rfl rfl
    show Function.update _ _ _ = _
    rw [him']
    rfl

/-- **The root is an internal page.** -/
theorem insert_root_node {id : PageId} {m : Nat} {cs : List (K × BTree K V h)}
    (hwf : s.WellFormed (node id m invalidPageId cs)) (hlm : 2 ≤ s.leafMaxSize)
    (him : 3 ≤ s.internalMaxSize) (hlog : s.log.Ok [(id, .write)]) (key : K) (value : V)
    (d n : Nat) :
    InsertedRoot s key value (node id m invalidPageId cs)
      (s.insertFrom (d + h + 2) (n + h + 1) id key value) := by
  obtain ⟨l, c, r, hdown⟩ := hwf.sub.exists_descent hlog key
  rw [insertFrom_node hwf.sub.page hdown.lookup, show n + h + 1 = (n + 1) + h by omega]
  have hspec := insertFrom_spec key value hdown.child hdown.fits hdown.parent_ne hlm him
    hdown.log c.1 d (n + 1)
  generalize (s.descended .write id c.2.id).insertFrom (d + h + 1) (n + 1 + h) c.2.id key value =
    run at hspec ⊢
  cases hspec with
  | duplicate hmem hlog' => exact .duplicate (hdown.mem_keys.mpr hmem) hlog'
  | room hmem hgrows hw hlog' =>
    exact hwf.room hdown.route (fun hk => hmem (hdown.mem_keys.mp hk)) hlm hgrows
      hw.of_descended hlog'
  | split hmem hgrows hw hlog' =>
    rw [hdown.parent]
    exact hwf.insertIntoParent hdown.route (fun hk => hmem (hdown.mem_keys.mp hk)) hlm him hgrows
      hw.of_descended hlog' n

/-- `Insert` from the root, which is fetched. -/
theorem insertFrom_root {t : BTree K V h} (hwf : s.WellFormed t) (hlm : 2 ≤ s.leafMaxSize)
    (him : 3 ≤ s.internalMaxSize) (hlog : s.log.Ok [(t.id, .write)]) (key : K) (value : V)
    (d n : Nat) :
    InsertedRoot s key value t (s.insertFrom (d + h + 1) (n + h) t.id key value) := by
  cases h with
  | zero =>
    obtain ⟨id, page, rfl⟩ := t.exists_leaf
    rw [insertFrom, findLeaf_leaf (show s.pages (leaf id page).id = some (.leaf page) from
      hwf.rep.page)]
    exact insert_root_leaf hwf hlm him hlog key value n
  | succ h =>
    obtain ⟨id, m, p, cs, rfl⟩ := t.exists_node
    obtain rfl : p = invalidPageId := hwf.parent
    exact insert_root_node hwf hlm him hlog key value d n

/-- **`Insert` into a tree that is not empty.** -/
theorem insert_root {t : BTree K V h} (hwf : s.WellFormed t) (hlm : 2 ≤ s.leafMaxSize)
    (him : 3 ≤ s.internalMaxSize) (hlog : s.log.Ok []) (key : K) (value : V) {fuel : Nat}
    (hfuel : h + 1 ≤ fuel) : InsertedRoot s key value t (s.insert fuel key value) := by
  have hrun : s.insert fuel key value =
      (s.fetchPage t.id .write).insertFrom fuel fuel t.id key value := by
    rw [insert, hwf.not_isEmpty, ← hwf.root]
    rfl
  have hspec := insertFrom_root (hwf.setLog (.acquire t.id .write :: s.log)) hlm him
    (hlog.acquire fun _ hg => absurd hg List.not_mem_nil) key value (fuel - h - 1) (fuel - h)
  rw [show fuel - h - 1 + h + 1 = fuel by omega, show fuel - h + h = fuel by omega] at hspec
  rw [hrun, fetchPage]
  -- the fetch of the root changes the log only
  generalize ({ s with log := .acquire t.id .write :: s.log } : BPlusTree K V).insertFrom fuel fuel
    t.id key value = run at hspec ⊢
  cases hspec with
  | duplicate hmem hlog => exact .duplicate hmem hlog
  | added hmem hlog hleaf hinternal htree => exact .added hmem hlog hleaf hinternal htree

/-- **`Insert` into the empty tree** makes a leaf. -/
theorem insert_empty (hroot : s.rootPageId = invalidPageId) (hnext : 0 ≤ s.nextPageId)
    (hlog : s.log.Ok []) (hlm : 2 ≤ s.leafMaxSize) (key : K) (value : V) (fuel : Nat) :
    ∃ s' page, s.insert fuel key value = some (true, s') ∧
      s'.WellFormed (leaf s.nextPageId page) ∧ page.array = [(key, value)] ∧
      page.array.length ≤ page.maxSize ∧ s'.log.Ok [] ∧ s'.leafMaxSize = s.leafMaxSize ∧
      s'.internalMaxSize = s.internalMaxSize := by
  have hinsert : (LeafPage.init s.leafMaxSize).insert key value =
      { maxSize := s.leafMaxSize, array := [(key, value)] } := by
    rcases @LeafPage.insert_cases K V _ _ _ (LeafPage.init s.leafMaxSize) .nil key value with
      ⟨hmem, -⟩ | ⟨-, l, r, harray, -, -, hinsert⟩
    · exact absurd hmem List.not_mem_nil
    · obtain ⟨rfl, rfl⟩ := List.append_eq_nil_iff.mp harray.symm
      exact hinsert
  let page : LeafPage K V := { maxSize := s.leafMaxSize, array := [(key, value)] }
  let s' : BPlusTree K V := { s with
    rootPageId := s.nextPageId
    nextPageId := s.nextPageId + 1
    pages := Function.update s.pages s.nextPageId (some (.leaf page))
    log := .release s.nextPageId .basic :: .acquire s.nextPageId .basic :: s.log }
  have hrun : s.insert fuel key value = some (true, s') := by
    rw [insert, if_pos (by simp [isEmpty, hroot]), hinsert]
    rfl
  have hwf : s'.WellFormed (leaf s.nextPageId page) := by
    refine ⟨rfl, rep_leaf (Function.update_self ..), List.nodup_singleton _, fun p hp => ?_, rfl,
      trivial, rfl, List.pairwise_singleton _ _, rfl, trivial⟩
    rw [List.mem_singleton.mp hp]
    exact ⟨hnext, Int.lt_succ _⟩
  refine ⟨s', page, hrun, hwf, rfl, ?_,
    (hlog.acquire fun _ hg => absurd hg List.not_mem_nil).release_head, rfl, rfl⟩
  show 1 ≤ s.leafMaxSize
  omega

/-- **`Insert` keeps the tree well-formed** where no page overflows: all that it writes is inside
the pages. A key that is in the tree is rejected, and no page changes; otherwise the entries are the
old ones and the new one. -/
theorem insert_holds {entries : List (K × V)} (hs : s.Holds entries) (hmax : s.RootMax)
    (hlm : 2 ≤ s.leafMaxSize) (him : 3 ≤ s.internalMaxSize) (key : K) (value : V)
    (hroom : ∀ (h : Nat) (t : BTree K V h), s.WellFormed t → ¬ Overflows key t) :
    ∃ m, ∀ fuel, m ≤ fuel →
      (∀ w ∈ s.insertWrites fuel key value, w.InBounds) ∧
      (key ∈ entries.map Prod.fst → ∃ log, s.insert fuel key value = some (false, { s with log }) ∧
        Holds { s with log } entries) ∧
      (key ∉ entries.map Prod.fst → ∃ s' entries', s.insert fuel key value = some (true, s') ∧
        s'.Holds entries' ∧ s'.RootMax ∧ entries'.Perm ((key, value) :: entries) ∧
        s'.leafMaxSize = s.leafMaxSize ∧ s'.internalMaxSize = s.internalMaxSize) := by
  cases hs with
  | empty hroot hnext hlog =>
    refine ⟨0, fun fuel _ => ⟨insertWrites_inBounds_empty hroot key value fuel,
      fun hmem => absurd hmem List.not_mem_nil, fun _ => ?_⟩⟩
    obtain ⟨s', page, hrun, hwf, harray, hmax', hlog', hleaf, hinternal⟩ :=
      insert_empty hroot hnext hlog hlm key value fuel
    refine ⟨s', _, hrun, .tree hwf hlog', hwf.rootMax_iff.mpr hmax', ?_, hleaf, hinternal⟩
    rw [entries_leaf, harray]
  | @tree h t hwf hlog =>
    refine ⟨h + 1, fun fuel hfuel =>
      ⟨(insertWrites_inBounds_iff hwf hlog key value hfuel).mpr (hroom h t hwf), ?_⟩⟩
    have hspec := insert_root hwf hlm him hlog key value hfuel
    generalize s.insert fuel key value = run at hspec ⊢
    cases hspec with
    | duplicate hmem hlog' =>
      exact ⟨fun _ => ⟨_, rfl, .tree (hwf.setLog _) hlog'⟩, fun hnot => absurd hmem hnot⟩
    | @added s' hmem hlog' hleaf hinternal htree =>
      refine ⟨fun hin => absurd hin hmem, fun _ => ?_⟩
      obtain ⟨h', t', hwf', hmax', -, hperm⟩ := htree (hwf.rootMax_iff.mp hmax)
      exact ⟨s', _, rfl, .tree hwf' hlog', hwf'.rootMax_iff.mpr hmax', hperm, hleaf, hinternal⟩

/-- A tree that is one leaf. -/
def oneLeaf (leafMaxSize : Nat) (array : List (Int × RID)) : BPlusTree Int RID where
  leafMaxSize := leafMaxSize
  internalMaxSize := 3
  rootPageId := 0
  pages := fun p => if p = 0 then some (.leaf { maxSize := leafMaxSize, array }) else none
  nextPageId := 1

theorem oneLeaf_wellFormed (leafMaxSize : Nat) {array : List (Int × RID)}
    (hinc : Increasing array) :
    (oneLeaf leafMaxSize array).WellFormed (leaf 0 { maxSize := leafMaxSize, array }) := by
  refine ⟨rfl, rep_leaf rfl, List.nodup_singleton _, fun p hp => ?_, rfl, trivial, rfl, hinc, rfl,
    trivial⟩
  rw [List.mem_singleton.mp hp]
  exact ⟨Int.le_refl 0, Int.zero_lt_one⟩

theorem oneLeaf_holds {leafMaxSize : Nat} {array : List (Int × RID)} (hinc : Increasing array) :
    (oneLeaf leafMaxSize array).Holds array := by
  have hholds := Holds.tree (oneLeaf_wellFormed leafMaxSize hinc) ⟨rfl, trivial⟩
  rwa [entries_leaf] at hholds

/-- A third entry for a leaf with room for two. -/
theorem insert_holds_split :
    ∃ fuel s' entries', (oneLeaf 2 [(1, {}), (2, {})]).insert fuel 3 {} = some (true, s') ∧
      s'.Holds entries' ∧ entries'.Perm [(3, {}), (1, {}), (2, {})] ∧
      ∀ w ∈ (oneLeaf 2 [(1, {}), (2, {})]).insertWrites fuel 3 {}, w.InBounds := by
  have hinc : Increasing [((1 : Int), ({} : RID)), (2, {})] := by
    simp [Increasing]
  have hwf := oneLeaf_wellFormed 2 hinc
  have hmax : (oneLeaf 2 [((1 : Int), ({} : RID)), (2, {})]).RootMax :=
    hwf.rootMax_iff.mpr (Nat.le_refl 2)
  obtain ⟨m, hm⟩ := insert_holds (oneLeaf_holds hinc) hmax (Nat.le_refl 2) (Nat.le_refl 3) 3 {}
    fun h t ht => ht.not_overflows hmax (by decide) (by decide) 3
  obtain ⟨hwrites, -, hadded⟩ := hm m (Nat.le_refl m)
  obtain ⟨s', entries', hrun, hholds, -, hperm, -⟩ := hadded (by decide)
  exact ⟨m, s', entries', hrun, hholds, hperm, hwrites⟩

/-- A root leaf with more entries than its maximum: half of it is still too many. -/
theorem insert_overfull_root :
    ¬ ∀ (s : BPlusTree Int RID) (entries : List (Int × RID)) (key : Int) (value : RID),
      s.Holds entries → 2 ≤ s.leafMaxSize → 3 ≤ s.internalMaxSize → key ∉ entries.map Prod.fst →
      ∃ m, ∀ fuel, m ≤ fuel → ∃ s' entries', s.insert fuel key value = some (true, s') ∧
        s'.Holds entries' ∧ entries'.Perm ((key, value) :: entries) := by
  intro hall
  have hinc : Increasing [((1 : Int), ({} : RID)), (2, {}), (3, {}), (4, {})] := by
    simp [Increasing]
  obtain ⟨m, hm⟩ := hall (oneLeaf 2 [(1, {}), (2, {}), (3, {}), (4, {})]) _ 5 {}
    (oneLeaf_holds hinc) (Nat.le_refl 2) (Nat.le_refl 3) (by decide)
  obtain ⟨s', entries', hrun, hholds, -⟩ := hm (m + 1) (Nat.le_succ m)
  obtain ⟨hroot, hpage₂, hpage₁⟩ : s'.rootPageId = 2 ∧
      s'.pages 2 = some (.internal ⟨3, invalidPageId, [(0, 0), (3, 1)]⟩) ∧
      s'.pages 1 = some (.leaf ⟨2, 2, invalidPageId, [(3, {}), (4, {}), (5, {})]⟩) := by
    obtain ⟨-, rfl⟩ := Prod.mk.inj (Option.some.inj hrun)
    exact ⟨rfl, rfl, rfl⟩
  cases hholds with
  | empty hempty =>
    rw [hroot] at hempty
    exact absurd hempty (by decide)
  | @tree h' t' hwf' =>
    have hrep := hwf'.rep.page
    rw [← hwf'.root, hroot, hpage₂] at hrep
    cases h' with
    | zero =>
      obtain ⟨id, page, rfl⟩ := t'.exists_leaf
      cases hrep
    | succ h' =>
      obtain ⟨id, max, p, cs, rfl⟩ := t'.exists_node
      have hslots : [((0 : Int), (0 : PageId)), (3, 1)] = slots cs := by
        have hpage : 3 = max ∧ invalidPageId = p ∧ [(0, 0), (3, 1)] = slots cs := by
          simpa [page] using hrep
        exact hpage.2.2
      -- the second child is page 1
      have hmem : ((3 : Int), (1 : PageId)) ∈ slots cs := by
        rw [← hslots]
        simp
      obtain ⟨c, hc, heq⟩ := List.mem_map.mp hmem
      obtain ⟨hchild, -, -, hfits⟩ := hwf'.sub.child hc
      have hcpage := hchild.rep.page
      rw [(Prod.mk.inj heq).2, hpage₁] at hcpage
      rw [← Option.some.inj hcpage] at hfits
      exact absurd hfits (by decide)

end Root

end BPlusTree

end OneBase
