import OneBase.Index.RemoveSteps

/-!
# Merging and borrowing in the store

An underfull page and its neighbour, in a store that holds the page above them. One step
of `CoalesceOrRedistribute` puts one page or two in their place.

- `Rebalanced`: what stands there now, and what the store looks like.
- `Window.step_left`, `Window.step_right`: the step, with the neighbour on the left or on
  the right.
-/

namespace OneBase

namespace BPlusTree

open BTree

variable {K V : Type} [LinearOrder K] [Inhabited K] [Inhabited V] {h : Nat}

/-! ## The store -/

/-- Only the pages `old` were written. -/
structure Touched (s s₁ : BPlusTree K V) (old : List PageId) : Prop where
  frame : ∀ p, p ∉ old → s₁.pages p = s.pages p
  next : s₁.nextPageId = s.nextPageId
  leafMaxSize : s₁.leafMaxSize = s.leafMaxSize
  internalMaxSize : s₁.internalMaxSize = s.internalMaxSize
  root : s₁.rootPageId = s.rootPageId

namespace Touched

omit [LinearOrder K] [Inhabited K] [Inhabited V]

variable {s s₁ s₂ : BPlusTree K V} {old old' : List PageId}

theorem mono (ht : Touched s s₁ old) (hsub : ∀ p ∈ old, p ∈ old') : Touched s s₁ old' :=
  ⟨fun p hp => ht.frame p fun hmem => hp (hsub p hmem), ht.next, ht.leafMaxSize, ht.internalMaxSize,
    ht.root⟩

theorem trans (ht : Touched s s₁ old) (ht' : Touched s₁ s₂ old) : Touched s s₂ old :=
  ⟨fun p hp => (ht'.frame p hp).trans (ht.frame p hp), ht'.next.trans ht.next,
    ht'.leafMaxSize.trans ht.leafMaxSize, ht'.internalMaxSize.trans ht.internalMaxSize,
    ht'.root.trans ht.root⟩

/-- Guards do not write. -/
theorem setLog (ht : Touched s s₁ old) (log : GuardLog) : Touched s { s₁ with log } old :=
  ⟨ht.frame, ht.next, ht.leafMaxSize, ht.internalMaxSize, ht.root⟩

end Touched

/-! ## Two neighbours -/

/-- Two neighbours `a` and `b` below the page `id`. -/
structure Window (s : BPlusTree K V) (id p : PageId) (m : Nat) (l : List (K × BTree K V h))
    (a b : K × BTree K V h) (r : List (K × BTree K V h)) : Prop where
  rep : (node id m p (l ++ a :: b :: r)).Rep s.pages
  nodup : (node id m p (l ++ a :: b :: r)).ids.Nodup
  id_ne : id ≠ invalidPageId
  parent_left : a.2.parent = id
  parent_right : b.2.parent = id
  sized_left : a.2.Sized s.leafMaxSize s.internalMaxSize
  sized_right : b.2.Sized s.leafMaxSize s.internalMaxSize

/-- The children `new` stand in the place of the two neighbours. -/
structure Rebalanced (s s₁ : BPlusTree K V) (id p : PageId) (m : Nat) (l : List (K × BTree K V h))
    (a b : K × BTree K V h) (r new : List (K × BTree K V h)) : Prop where
  rep : (node id m p (l ++ (new ++ r))).Rep s₁.pages
  touched : Touched s s₁ (node id m p (l ++ a :: b :: r)).ids
  sized : ∀ c ∈ new, c.2.Fits ∧ c.2.Sized s.leafMaxSize s.internalMaxSize
  shrunk : ∀ {key : K} {cs : List (K × BTree K V h)} {cascades : Prop}, (h = 0 → ¬ cascades) →
    ShrunkChildren key id cascades cs (l ++ a :: b :: r) →
    ShrunkChildren key id (0 < h) cs (l ++ (new ++ r))

namespace Window

omit [LinearOrder K] [Inhabited K] [Inhabited V]

variable {s s₁ : BPlusTree K V} {id p : PageId} {m : Nat} {l r new : List (K × BTree K V h)}
  {a b : K × BTree K V h}

theorem setLog (hw : Window s id p m l a b r) (log : GuardLog) :
    Window { s with log } id p m l a b r :=
  ⟨hw.rep, hw.nodup, hw.id_ne, hw.parent_left, hw.parent_right, hw.sized_left, hw.sized_right⟩

theorem page (hw : Window s id p m l a b r) :
    s.pages id = some (.internal ⟨m, p, slots (l ++ a :: b :: r)⟩) := (rep_node.mp hw.rep).1

theorem rep_left (hw : Window s id p m l a b r) : a.2.Rep s.pages :=
  (rep_node.mp hw.rep).2 a (by simp)

theorem rep_right (hw : Window s id p m l a b r) : b.2.Rep s.pages :=
  (rep_node.mp hw.rep).2 b (by simp)

/-- The pages of the neighbours are distinct, and none is the page above them. -/
theorem distinct (hw : Window s id p m l a b r) :
    (a.2.ids ++ b.2.ids).Nodup ∧ (∀ q ∈ a.2.ids ++ b.2.ids, q ≠ id) ∧
      (∀ x ∈ l ++ r, ∀ q ∈ x.2.ids, q ≠ id ∧ q ∉ a.2.ids ++ b.2.ids) := by
  have hnodup := hw.nodup
  rw [ids_node, List.nodup_cons] at hnodup
  obtain ⟨hid, hnodup⟩ := hnodup
  have hperm : ((l ++ a :: b :: r).flatMap fun c => c.2.ids).Perm
      ((a.2.ids ++ b.2.ids) ++ (l ++ r).flatMap fun c => c.2.ids) := by
    simp only [List.flatMap_append, List.flatMap_cons, List.append_assoc]
    rw [← List.append_assoc a.2.ids, ← List.append_assoc a.2.ids, ← List.append_assoc,
      ← List.append_assoc (a.2.ids ++ b.2.ids)]
    exact List.perm_append_comm.append_right _
  rw [hperm.nodup_iff, List.nodup_append] at hnodup
  obtain ⟨hab, -, hdisjoint⟩ := hnodup
  rw [hperm.mem_iff, List.mem_append, not_or] at hid
  refine ⟨hab, fun q hq heq => hid.1 (heq ▸ hq), fun x hx q hq =>
    ⟨fun heq => hid.2 ?_, fun hmem => ?_⟩⟩
  · exact List.mem_flatMap.mpr ⟨x, hx, heq ▸ hq⟩
  · exact hdisjoint q hmem q (List.mem_flatMap.mpr ⟨x, hx, hq⟩) rfl

/-- **The rest of the page stays.** -/
theorem rep_new (hw : Window s id p m l a b r) {store : PageId → Option (TreePage K V)}
    (hpage : store id = some (.internal ⟨m, p, slots (l ++ (new ++ r))⟩))
    (hnew : ∀ c ∈ new, c.2.Rep store)
    (hframe : ∀ q, q ≠ id → q ∉ a.2.ids ++ b.2.ids → store q = s.pages q) :
    (node id m p (l ++ (new ++ r))).Rep store := by
  have hold : ∀ x ∈ l ++ r, x.2.Rep store := by
    intro x hx
    have hmem : x ∈ l ++ a :: b :: r := by
      rcases List.mem_append.mp hx with hx | hx
      · exact List.mem_append_left _ hx
      · exact List.mem_append_right _ (List.mem_cons_of_mem _ (List.mem_cons_of_mem _ hx))
    refine ((rep_node.mp hw.rep).2 x hmem).congr fun q hq => ?_
    obtain ⟨hq₁, hq₂⟩ := hw.distinct.2.2 x hx q hq
    exact hframe q hq₁ hq₂
  refine rep_node.mpr ⟨hpage, fun x hx => ?_⟩
  rcases List.mem_append.mp hx with hx | hx
  · exact hold x (List.mem_append_left _ hx)
  · rcases List.mem_append.mp hx with hx | hx
    · exact hnew x hx
    · exact hold x (List.mem_append_right _ hx)

theorem touched (hframe : ∀ q, q ≠ id → q ∉ a.2.ids ++ b.2.ids → s₁.pages q = s.pages q)
    (hnext : s₁.nextPageId = s.nextPageId) (hleaf : s₁.leafMaxSize = s.leafMaxSize)
    (hinternal : s₁.internalMaxSize = s.internalMaxSize) (hroot : s₁.rootPageId = s.rootPageId) :
    Touched s s₁ (node id m p (l ++ a :: b :: r)).ids := by
  refine ⟨fun q hq => hframe q ?_ ?_, hnext, hleaf, hinternal, hroot⟩
  · rintro rfl
    exact hq (id_mem_ids (node q m p (l ++ a :: b :: r)))
  · intro hmem
    refine hq ?_
    rw [ids_node]
    refine List.mem_cons_of_mem _ ?_
    simp only [List.flatMap_append, List.flatMap_cons, List.mem_append] at hmem ⊢
    rcases hmem with hmem | hmem
    · exact .inr (.inl hmem)
    · exact .inr (.inr (.inl hmem))

end Window

/-- **`Coalesce`**: one page has taken the place of the two, and no guard stays behind. -/
def Coalesced (s : BPlusTree K V) (id p : PageId) (m : Nat) (l : List (K × BTree K V h))
    (a b : K × BTree K V h) (r : List (K × BTree K V h)) : Prop :=
  ∃ s₁ t, s.coalesce a.2.id b.2.id id l.length =
      some (decide (l.length + r.length + 1 < (m + 1) / 2), s₁) ∧
    Rebalanced s s₁ id p m l a b r [(a.1, t)] ∧
    ∀ ps, s.log.Ok ps → (∀ g ∈ ps, g.1 = id ∨ g.1 = a.2.id ∨ g.1 = b.2.id) → s₁.log.Ok ps

/-- **`Redistribute`**: two pages have taken the place of the two, and a latch on the page
above them is requested though it is held. -/
def Redistributed (s : BPlusTree K V) (id p : PageId) (m : Nat) (l : List (K × BTree K V h))
    (a b : K × BTree K V h) (r : List (K × BTree K V h)) (run : Option (BPlusTree K V)) : Prop :=
  ∃ s₁ t k t', run = some s₁ ∧ Rebalanced s s₁ id p m l a b r [(a.1, t), (k, t')] ∧
    s₁.log.live = s.log.live ∧ (s.log.Latched id → ¬ s₁.log.NoRelatch)

section Leaves

variable {s : BPlusTree K V} {id p ia ib : PageId} {m : Nat} {l r : List (K × BTree K V 0)}
  {ka kb : K} {pa pb : LeafPage K V}

omit [LinearOrder K] [Inhabited K] [Inhabited V] in
/-- Two leaves have one id each. -/
theorem Window.ne_leaves (hw : Window s id p m l (ka, leaf ia pa) (kb, leaf ib pb) r) :
    ia ≠ ib ∧ ia ≠ id ∧ ib ≠ id := by
  obtain ⟨hnodup, hid, -⟩ := hw.distinct
  have hids : (leaf ia pa).ids ++ (leaf ib pb).ids = [ia, ib] := rfl
  rw [hids] at hnodup hid
  exact ⟨by simpa using hnodup, hid ia (by simp), hid ib (by simp)⟩

omit [Inhabited K] [Inhabited V] in
/-- Leaves that shrank and were put in order. -/
theorem rebalanced_leaves {s₁ : BPlusTree K V} {new : List (K × BTree K V 0)}
    (hw : Window s id p m l (ka, leaf ia pa) (kb, leaf ib pb) r)
    (hpage : s₁.pages id = some (.internal ⟨m, p, slots (l ++ (new ++ r))⟩))
    (hnew : ∀ c ∈ new, c.2.Rep s₁.pages)
    (hframe : ∀ q, q ≠ id → q ≠ ia → q ≠ ib → s₁.pages q = s.pages q)
    (hnext : s₁.nextPageId = s.nextPageId) (hleaf : s₁.leafMaxSize = s.leafMaxSize)
    (hinternal : s₁.internalMaxSize = s.internalMaxSize) (hroot : s₁.rootPageId = s.rootPageId)
    (hsized : ∀ c ∈ new, c.2.Fits ∧ c.2.Sized s.leafMaxSize s.internalMaxSize)
    (hshrunk : ∀ {key : K} {cs : List (K × BTree K V 0)},
      ShrunkChildren key id False cs (l ++ (ka, leaf ia pa) :: (kb, leaf ib pb) :: r) →
      ShrunkChildren key id False cs (l ++ (new ++ r))) :
    Rebalanced s s₁ id p m l (ka, leaf ia pa) (kb, leaf ib pb) r new := by
  have hframe' : ∀ q, q ≠ id → q ∉ (leaf ia pa).ids ++ (leaf ib pb).ids →
      s₁.pages q = s.pages q := by
    intro q hq hmem
    have hids : (leaf ia pa).ids ++ (leaf ib pb).ids = [ia, ib] := rfl
    rw [hids] at hmem
    refine hframe q hq ?_ ?_
    · rintro rfl
      exact hmem (by simp)
    · rintro rfl
      exact hmem (by simp)
  refine ⟨hw.rep_new hpage hnew hframe', Window.touched hframe' hnext hleaf hinternal hroot, hsized,
    fun hcascades hchildren => ?_⟩
  have hfalse : ∀ P : Prop, ¬ P → P = False := fun P hP => propext (iff_false_intro hP)
  rw [hfalse _ (hcascades rfl)] at hchildren
  rw [hfalse _ (Nat.lt_irrefl 0)]
  exact hshrunk hchildren

omit [Inhabited V] in
/-- **`Coalesce` of leaves.** -/
theorem Window.coalesce_leaves (hw : Window s id p m l (ka, leaf ia pa) (kb, leaf ib pb) r)
    (hmin : pa.maxSize / 2 ≤ pa.array.length + pb.array.length)
    (hmax : pa.array.length + pb.array.length ≤ pa.maxSize) :
    Coalesced s id p m l (ka, leaf ia pa) (kb, leaf ib pb) r := by
  obtain ⟨-, hia, -⟩ := hw.ne_leaves
  refine ⟨_, leaf ia (mergeLeaves pa pb),
    BPlusTree.coalesce_leaves hw.page hw.rep_left.page hw.rep_right.page, ?_, fun ps hlog _ => hlog⟩
  refine rebalanced_leaves hw ?_ (fun c hc => ?_) (fun q hq hqa hqb => ?_) rfl rfl rfl rfl
    (fun c hc => ?_) fun hshrunk => hshrunk.mergeLeaves
  · exact Function.update_self ..
  · rw [List.mem_singleton.mp hc]
    exact rep_leaf ((Function.update_of_ne hia _ _).trans (Function.update_self ..))
  · exact (Function.update_of_ne hq _ _).trans
      ((Function.update_of_ne hqa _ _).trans (Function.update_of_ne hqb _ _))
  · rw [List.mem_singleton.mp hc]
    refine ⟨fits_leaf.mpr ?_, hw.sized_left⟩
    rw [mergeLeaves, List.length_append]
    exact ⟨hmin, hmax⟩

/-- The log of a step that fetches and drops the page above once more. -/
theorem not_noRelatch {log : GuardLog} (hlatched : log.Latched id) :
    ¬ GuardLog.NoRelatch (.acquire id .write :: log) := by
  rintro ⟨hbasic | hnot, -⟩
  · cases hbasic
  · exact hnot hlatched

/-- **A leaf borrows from the left.** -/
theorem Window.redistribute_leaves_left (hw : Window s id p m l (ka, leaf ia pa) (kb, leaf ib pb) r)
    (hlm : 2 ≤ s.leafMaxSize) (hunder : pb.array.length + 1 = pb.maxSize / 2)
    (hmax : pb.maxSize < pb.array.length + pa.array.length) (hfits : pa.array.length ≤ pa.maxSize) :
    Redistributed s id p m l (ka, leaf ia pa) (kb, leaf ib pb) r
      (s.redistribute ia ib (l.length + 1) true) := by
  obtain ⟨hab, hia, hib⟩ := hw.ne_leaves
  have hma : pa.maxSize = s.leafMaxSize := hw.sized_left
  have hmb : pb.maxSize = s.leafMaxSize := hw.sized_right
  obtain ⟨x, e, harray⟩ : ∃ x e, pa.array = x ++ [e] := by
    rcases List.eq_nil_or_concat pa.array with hnil | ⟨x, e, heq⟩
    · rw [hnil, List.length_nil] at hmax
      omega
    · exact ⟨x, e, by simpa using heq⟩
  have hlen : pa.array.length = x.length + 1 := by
    rw [harray, List.length_append, List.length_singleton]
  refine ⟨_, leaf ia { pa with array := x }, e.1, leaf ib { pb with array := e :: pb.array },
    BPlusTree.redistribute_leaves_left hw.page hw.rep_left.page hw.rep_right.page hw.parent_right
      harray, ?_, List.erase_cons_head _ _, fun hlatched => not_noRelatch hlatched⟩
  refine rebalanced_leaves hw borrowedPages_self ?_
    (fun q hq hqa hqb => borrowedPages_of_ne hq hqb hqa) rfl rfl rfl rfl ?_
    fun hshrunk => hshrunk.borrowLeaves ?_ ?_
  · simp only [List.forall_mem_cons]
    exact ⟨rep_leaf (borrowedPages_sibling hia), rep_leaf (borrowedPages_node hib hab.symm),
      fun _ hc => absurd hc List.not_mem_nil⟩
  · simp only [List.forall_mem_cons]
    refine ⟨⟨fits_leaf.mpr ?_, hma⟩, ⟨fits_leaf.mpr ?_, hmb⟩,
      fun _ hc => absurd hc List.not_mem_nil⟩
    · show pa.maxSize / 2 ≤ x.length ∧ x.length ≤ pa.maxSize
      omega
    · show pb.maxSize / 2 ≤ pb.array.length + 1 ∧ pb.array.length + 1 ≤ pb.maxSize
      omega
  · rw [harray, List.append_assoc]
    rfl
  · rintro rfl
    rw [List.length_nil] at hlen
    omega

/-- **A leaf borrows from the right.** -/
theorem Window.redistribute_leaves_right
    (hw : Window s id p m [] (ka, leaf ia pa) (kb, leaf ib pb) r)
    (hlm : 2 ≤ s.leafMaxSize) (hunder : pa.array.length + 1 = pa.maxSize / 2)
    (hmax : pa.maxSize < pa.array.length + pb.array.length) (hfits : pb.array.length ≤ pb.maxSize) :
    Redistributed s id p m [] (ka, leaf ia pa) (kb, leaf ib pb) r
      (s.redistribute ib ia 0 false) := by
  obtain ⟨hab, hia, hib⟩ := hw.ne_leaves
  have hma : pa.maxSize = s.leafMaxSize := hw.sized_left
  have hmb : pb.maxSize = s.leafMaxSize := hw.sized_right
  obtain ⟨e, e', y, harray⟩ : ∃ e e' y, pb.array = e :: e' :: y := by
    match hpb : pb.array with
    | [] | [_] =>
      simp only [hpb, List.length_nil, List.length_singleton] at hmax
      omega
    | e :: e' :: y => exact ⟨e, e', y, rfl⟩
  have hlen : pb.array.length = y.length + 2 := by
    rw [harray, List.length_cons, List.length_cons]
  refine ⟨_, leaf ia { pa with array := pa.array ++ [e] }, e'.1,
    leaf ib { pb with array := e' :: y },
    BPlusTree.redistribute_leaves_right hw.page hw.rep_left.page hw.rep_right.page hw.parent_left
      harray, ?_, List.erase_cons_head _ _, fun hlatched => not_noRelatch hlatched⟩
  refine rebalanced_leaves hw borrowedPages_self ?_
    (fun q hq hqa hqb => borrowedPages_of_ne hq hqa hqb) rfl rfl rfl rfl ?_
    fun hshrunk => hshrunk.borrowLeaves ?_ ?_
  · simp only [List.forall_mem_cons]
    exact ⟨rep_leaf (borrowedPages_node hia hab), rep_leaf (borrowedPages_sibling hib),
      fun _ hc => absurd hc List.not_mem_nil⟩
  · simp only [List.forall_mem_cons]
    refine ⟨⟨fits_leaf.mpr ?_, hma⟩, ⟨fits_leaf.mpr ?_, hmb⟩,
      fun _ hc => absurd hc List.not_mem_nil⟩
    · show pa.maxSize / 2 ≤ (pa.array ++ [e]).length ∧ (pa.array ++ [e]).length ≤ pa.maxSize
      rw [List.length_append, List.length_singleton]
      omega
    · show pb.maxSize / 2 ≤ y.length + 1 ∧ y.length + 1 ≤ pb.maxSize
      omega
  · rw [harray, List.append_assoc]
    rfl
  · simp

end Leaves

section Inner

variable {s : BPlusTree K V} {id p ia ib pa pb : PageId} {m m' m'' : Nat}
  {l r : List (K × BTree K V (h + 1))} {as bs : List (K × BTree K V h)} {ka kb : K}

omit [LinearOrder K] [Inhabited K] [Inhabited V] in
/-- The pages of two internal neighbours and of their children are distinct. -/
theorem Window.distinct_inner
    (hw : Window s id p m'' l (ka, node ia m pa as) (kb, node ib m' pb bs) r) :
    ia ≠ ib ∧ ia ≠ id ∧ ib ≠ id ∧
      (∀ c ∈ as ++ bs, ∀ q ∈ c.2.ids, q ≠ ia ∧ q ≠ ib ∧ q ≠ id) ∧
      ((as ++ bs).flatMap fun c => c.2.ids).Nodup := by
  obtain ⟨hnodup, hid, -⟩ := hw.distinct
  have hperm : ((node ia m pa as).ids ++ (node ib m' pb bs).ids).Perm
      (ia :: ib :: (as ++ bs).flatMap fun c => c.2.ids) := by
    rw [ids_node, ids_node, List.cons_append, List.flatMap_append]
    exact List.perm_middle.cons _
  rw [hperm.nodup_iff, List.nodup_cons, List.nodup_cons, List.mem_cons, not_or] at hnodup
  obtain ⟨⟨hne, hia⟩, hib, hnodup⟩ := hnodup
  have hid' : ∀ q ∈ ia :: ib :: (as ++ bs).flatMap (fun c => c.2.ids), q ≠ id := fun q hq =>
    hid q (hperm.mem_iff.mpr hq)
  refine ⟨hne, hid' ia (by simp), hid' ib (by simp), fun c hc q hq => ?_, hnodup⟩
  have hmem : q ∈ (as ++ bs).flatMap fun c => c.2.ids := List.mem_flatMap.mpr ⟨c, hc, hq⟩
  refine ⟨?_, ?_, hid' q (List.mem_cons_of_mem _ (List.mem_cons_of_mem _ hmem))⟩
  · rintro rfl
    exact hia hmem
  · rintro rfl
    exact hib hmem

omit [Inhabited K] [Inhabited V] in
/-- A page with the wrong parent is below the neighbours. -/
theorem rebalanced_inner {s₁ : BPlusTree K V} {a b : K × BTree K V (h + 1)}
    {new : List (K × BTree K V (h + 1))} (hw : Window s id p m'' l a b r)
    (hpage : s₁.pages id = some (.internal ⟨m'', p, slots (l ++ (new ++ r))⟩))
    (hnew : ∀ c ∈ new, c.2.Rep s₁.pages)
    (hframe : ∀ q, q ≠ id → q ∉ a.2.ids ++ b.2.ids → s₁.pages q = s.pages q)
    (hnext : s₁.nextPageId = s.nextPageId) (hleaf : s₁.leafMaxSize = s.leafMaxSize)
    (hinternal : s₁.internalMaxSize = s.internalMaxSize) (hroot : s₁.rootPageId = s.rootPageId)
    (hsized : ∀ c ∈ new, c.2.Fits ∧ c.2.Sized s.leafMaxSize s.internalMaxSize)
    (hshrunk : ∀ {key : K} {cs : List (K × BTree K V (h + 1))} {cascades : Prop},
      ShrunkChildren key id cascades cs (l ++ a :: b :: r) →
      ShrunkChildren key id True cs (l ++ (new ++ r))) :
    Rebalanced s s₁ id p m'' l a b r new := by
  refine ⟨hw.rep_new hpage hnew hframe, Window.touched hframe hnext hleaf hinternal hroot, hsized,
    fun _ hchildren => ?_⟩
  rw [show (0 < h + 1) = True from propext (iff_true_intro (Nat.succ_pos h))]
  exact hshrunk hchildren

omit [Inhabited V] in
/-- **`Coalesce` of internal pages.** -/
theorem Window.coalesce_inner {b₀ : K × BTree K V h}
    (hw : Window s id p m'' l (ka, node ia m pa as) (kb, node ib m' pb (b₀ :: bs)) r)
    (hmin : (m + 1) / 2 ≤ as.length + (b₀ :: bs).length)
    (hmax : as.length + (b₀ :: bs).length ≤ m) :
    Coalesced s id p m'' l (ka, node ia m pa as) (kb, node ib m' pb (b₀ :: bs)) r := by
  obtain ⟨hab, hia, hib, hchild, hnodup⟩ := hw.distinct_inner
  have hpa : pa = id := hw.parent_left
  obtain ⟨hm, -, hsa⟩ := sized_node.mp hw.sized_left
  obtain ⟨-, -, hsb⟩ := sized_node.mp hw.sized_right
  -- the children of the page that stays; only the key of one slot is new
  have hcs : ∀ c ∈ as ++ (kb, b₀.2) :: bs, ∃ c' ∈ as ++ b₀ :: bs, c'.2 = c.2 := by
    intro c hc
    rcases List.mem_append.mp hc with hc | hc
    · exact ⟨c, List.mem_append_left _ hc, rfl⟩
    · rcases List.mem_cons.mp hc with rfl | hc
      · exact ⟨b₀, by simp, rfl⟩
      · exact ⟨c, by simp [hc], rfl⟩
  have hids : ((as ++ (kb, b₀.2) :: bs).flatMap fun c => c.2.ids) =
      (as ++ b₀ :: bs).flatMap fun c => c.2.ids := by
    simp only [List.flatMap_append, List.flatMap_cons]
  have hchild' : ∀ c ∈ as ++ (kb, b₀.2) :: bs, ∀ q ∈ c.2.ids, q ≠ ia ∧ q ≠ ib ∧ q ≠ id := by
    intro c hc
    obtain ⟨c', hc', heq⟩ := hcs c hc
    exact heq ▸ hchild c' hc'
  have hroot : ∀ q, q ∈ (as ++ (kb, b₀.2) :: bs).map (fun c => c.2.id) →
      ∃ c ∈ as ++ (kb, b₀.2) :: bs, q ∈ c.2.ids := by
    intro q hq
    obtain ⟨c, hc, rfl⟩ := List.mem_map.mp hq
    exact ⟨c, hc, id_mem_ids _⟩
  have hsame : ∀ c ∈ as ++ (kb, b₀.2) :: bs, c.2.Rep s.pages := by
    intro c hc
    obtain ⟨c', hc', heq⟩ := hcs c hc
    rw [← heq]
    rcases List.mem_append.mp hc' with hc' | hc'
    · exact (rep_node.mp hw.rep_left).2 c' hc'
    · exact (rep_node.mp hw.rep_right).2 c' hc'
  obtain ⟨log, hrun, hlog⟩ := BPlusTree.coalesce_inner hw.page (rep_node.mp hw.rep_left).1
    (rep_node.mp hw.rep_right).1
  refine ⟨_, node ia m pa (adopt pa (as ++ (kb, b₀.2) :: bs)), hrun, ?_, fun ps hps hheld => ?_⟩
  · refine rebalanced_inner hw ?_ (fun c hc => ?_) (fun q hq hmem => ?_) rfl rfl rfl rfl
      (fun c hc => ?_) fun hshrunk => hshrunk.mergeInner (hpa ▸ hia.symm)
    · exact coalescedPages_self
    · rw [List.mem_singleton.mp hc]
      have hnodup' : ((as ++ (kb, b₀.2) :: bs).flatMap fun c => c.2.ids).Nodup := by
        rw [hids]
        exact hnodup
      refine rep_node.mpr ⟨?_, rep_adopt hsame hnodup' fun q hq => ?_⟩
      · refine (coalescedPages_left hia fun hmem => ?_).trans ?_
        · obtain ⟨c, hc, hq⟩ := hroot ia hmem
          exact (hchild' c hc ia hq).1 rfl
        · rw [slots_adopt]
      · obtain ⟨c, hc, hq⟩ := List.mem_flatMap.mp hq
        obtain ⟨hqa, hqb, hqid⟩ := hchild' c hc q hq
        exact coalescedPages_of_ne hqid hqa hqb
    · have hnot : q ≠ ia ∧ q ≠ ib ∧ q ∉ (as ++ (kb, b₀.2) :: bs).flatMap fun c => c.2.ids := by
        simp only [ids_node, List.cons_append, List.mem_cons, List.mem_append, not_or] at hmem
        refine ⟨hmem.1, hmem.2.2.1, ?_⟩
        rw [hids, List.flatMap_append, List.mem_append, not_or]
        exact ⟨hmem.2.1, hmem.2.2.2⟩
      refine (coalescedPages_of_ne hq hnot.1 hnot.2.1).trans (if_neg fun hmap => ?_)
      obtain ⟨c, hc, hqc⟩ := hroot q hmap
      exact hnot.2.2 (List.mem_flatMap.mpr ⟨c, hc, hqc⟩)
    · rw [List.mem_singleton.mp hc]
      have hlen : (adopt pa (as ++ (kb, b₀.2) :: bs)).length = as.length + (b₀ :: bs).length := by
        simp [adopt]
      refine ⟨fits_node.mpr ?_, sized_node.mpr ⟨hm, ?_, fun c hc => ?_⟩⟩
      · rw [hlen]
        exact ⟨hmin, hmax⟩
      · simp [adopt]
      · obtain ⟨c', hc', rfl⟩ := List.mem_map.mp hc
        rw [fits_setParent, sized_setParent]
        obtain ⟨c'', hc'', heq⟩ := hcs c' hc'
        rw [← heq]
        rcases List.mem_append.mp hc'' with hc'' | hc''
        · exact hsa c'' hc''
        · exact hsb c'' hc''
  · refine hlog ps hps fun c hc g hg heq => ?_
    obtain ⟨hqa, hqb, hqid⟩ := hchild' c hc c.2.id (id_mem_ids _)
    rcases hheld g hg with hg' | hg' | hg'
    · exact hqid (heq.symm.trans hg')
    · exact hqa (heq.symm.trans hg')
    · exact hqb (heq.symm.trans hg')

omit [LinearOrder K] [Inhabited K] [Inhabited V] in
/-- One child gets a parent, after the two neighbours and the page above were written. -/
theorem Window.setParent_child
    (hw : Window s id p m'' l (ka, node ia m pa as) (kb, node ib m' pb bs) r)
    {cs₁ cs₂ : List (K × BTree K V h)} {x : K × BTree K V h} (hcs : as ++ bs = cs₁ ++ x :: cs₂)
    {store : PageId → Option (TreePage K V)}
    (hstore : ∀ q, q ≠ id → q ≠ ia → q ≠ ib → store q = s.pages q) (p' : PageId) :
    let store' := Function.update store x.2.id
      ((store x.2.id).map (TreePage.setParentPageId p'))
    (∀ c ∈ cs₁ ++ cs₂, c.2.Rep store') ∧ (x.2.setParent p').Rep store' ∧
      (∀ q, q = id ∨ q = ia ∨ q = ib → store' q = store q) ∧
      ∀ q, q ≠ id → q ∉ (node ia m pa as).ids ++ (node ib m' pb bs).ids → store' q = s.pages q := by
  intro store'
  obtain ⟨-, -, -, hchild, hnodup⟩ := hw.distinct_inner
  have hrep : ∀ c ∈ as ++ bs, c.2.Rep s.pages := by
    intro c hc
    rcases List.mem_append.mp hc with hc | hc
    · exact (rep_node.mp hw.rep_left).2 c hc
    · exact (rep_node.mp hw.rep_right).2 c hc
  rw [hcs] at hchild hnodup hrep
  have hx : x ∈ cs₁ ++ x :: cs₂ := List.mem_append_right _ List.mem_cons_self
  have hother : ∀ q, q ≠ x.2.id → q ≠ id → q ≠ ia → q ≠ ib → store' q = s.pages q :=
    fun q hq hid ha hb => (Function.update_of_ne hq _ _).trans (hstore q hid ha hb)
  refine ⟨fun c hc => ?_, ?_, fun q hq => ?_, fun q hid hq => ?_⟩
  · have hmem : c ∈ cs₁ ++ x :: cs₂ := by
      rcases List.mem_append.mp hc with hc | hc
      · exact List.mem_append_left _ hc
      · exact List.mem_append_right _ (List.mem_cons_of_mem _ hc)
    refine (hrep c hmem).congr fun q hq => ?_
    obtain ⟨ha, hb, hid⟩ := hchild c hmem q hq
    refine hother q ?_ hid ha hb
    rintro rfl
    exact not_mem_ids_of_sibling hnodup hc hq (id_mem_ids _)
  · refine (hrep x hx).setParent ((List.nodup_flatMap.mp hnodup).1 x hx) ?_ fun q hq hne => ?_
    · obtain ⟨ha, hb, hid⟩ := hchild x hx x.2.id (id_mem_ids _)
      rw [← hstore _ hid ha hb]
      exact Function.update_self ..
    · obtain ⟨ha, hb, hid⟩ := hchild x hx q hq
      exact hother q hne hid ha hb
  · obtain ⟨ha, hb, hid⟩ := hchild x hx x.2.id (id_mem_ids _)
    refine Function.update_of_ne ?_ _ _
    rcases hq with rfl | rfl | rfl
    · exact hid.symm
    · exact ha.symm
    · exact hb.symm
  · have hmem : q ≠ ia ∧ q ≠ ib ∧ q ∉ (as ++ bs).flatMap fun c => c.2.ids := by
      simp only [ids_node, List.cons_append, List.mem_cons, List.mem_append, not_or] at hq
      refine ⟨hq.1, hq.2.2.1, ?_⟩
      rw [List.flatMap_append, List.mem_append, not_or]
      exact ⟨hq.2.1, hq.2.2.2⟩
    refine hother q ?_ hid hmem.1 hmem.2.1
    rintro rfl
    rw [hcs] at hmem
    exact hmem.2.2 (List.mem_flatMap.mpr ⟨x, hx, id_mem_ids _⟩)

/-- **An internal page borrows from the left.** -/
theorem Window.redistribute_inner_left {b₀ : K × BTree K V h}
    (hw : Window s id p m'' l (ka, node ia m pa as) (kb, node ib m' pb (b₀ :: bs)) r)
    (him : 3 ≤ s.internalMaxSize) (hunder : (b₀ :: bs).length + 1 = (m' + 1) / 2)
    (hmax : m' < (b₀ :: bs).length + as.length) (hfits : as.length ≤ m) :
    Redistributed s id p m'' l (ka, node ia m pa as) (kb, node ib m' pb (b₀ :: bs)) r
      (s.redistribute ia ib (l.length + 1) true) := by
  obtain ⟨hab, hia, hib, -, -⟩ := hw.distinct_inner
  have hpb : pb = id := hw.parent_right
  obtain ⟨hm, -, hsa⟩ := sized_node.mp hw.sized_left
  obtain ⟨hm', -, hsb⟩ := sized_node.mp hw.sized_right
  obtain ⟨as', e, rfl⟩ : ∃ as' e, as = as' ++ [e] := by
    rcases List.eq_nil_or_concat as with hnil | ⟨as', e, heq⟩
    · rw [hnil, List.length_nil] at hmax
      omega
    · exact ⟨as', e, by simpa using heq⟩
  rw [List.length_append, List.length_singleton] at hmax hfits
  have hrun := BPlusTree.redistribute_inner_left hw.page (rep_node.mp hw.rep_left).1
    (rep_node.mp hw.rep_right).1 hpb
  obtain ⟨hothers, hb₀, hpages, hframe⟩ := hw.setParent_child
    (show (as' ++ [e]) ++ b₀ :: bs = (as' ++ [e]) ++ b₀ :: bs from rfl)
    (fun q hid ha hb => borrowedPages_of_ne hid hb ha) pb
  refine ⟨_, node ia m pa as', kb,
    node ib m' pb ((b₀.1, b₀.2.setParent pb) :: (kb, e.2) :: bs), hrun, ?_, ?_, fun hlatched => ?_⟩
  · refine rebalanced_inner hw ?_ ?_ hframe rfl rfl rfl rfl ?_
      fun hshrunk => hshrunk.borrowLast (hpb ▸ hib.symm)
    · exact (hpages id (.inl rfl)).trans borrowedPages_self
    · simp only [List.forall_mem_cons]
      refine ⟨rep_node.mpr ⟨?_, fun c hc => ?_⟩, rep_node.mpr ⟨?_, ?_⟩,
        fun _ hc => absurd hc List.not_mem_nil⟩
      · exact (hpages ia (.inr (.inl rfl))).trans (borrowedPages_sibling hia)
      · exact hothers c (by simp [hc])
      · exact (hpages ib (.inr (.inr rfl))).trans (borrowedPages_node hib hab.symm)
      · simp only [List.forall_mem_cons]
        exact ⟨hb₀, hothers e (by simp), fun c hc => hothers c (by simp [hc])⟩
    · simp only [List.forall_mem_cons]
      refine ⟨⟨fits_node.mpr ?_, sized_node.mpr ⟨hm, ?_, fun c hc => ?_⟩⟩,
        ⟨fits_node.mpr ?_, sized_node.mpr ⟨hm', List.cons_ne_nil _ _, ?_⟩⟩,
        fun _ hc => absurd hc List.not_mem_nil⟩
      · omega
      · rintro rfl
        rw [List.length_nil] at hmax
        omega
      · exact hsa c (by simp [hc])
      · simp only [List.length_cons] at hunder ⊢
        omega
      · simp only [List.forall_mem_cons, fits_setParent, sized_setParent]
        exact ⟨hsb b₀ List.mem_cons_self, hsa e (by simp),
          fun c hc => hsb c (List.mem_cons_of_mem _ hc)⟩
  · show (((_ :: _ :: s.log.live).erase _).erase _) = _
    rw [List.erase_cons_head, List.erase_cons_head]
  · rintro ⟨-, hno⟩
    exact not_noRelatch hlatched hno

/-- **An internal page borrows from the right.** -/
theorem Window.redistribute_inner_right
    (hw : Window s id p m'' [] (ka, node ia m pa as) (kb, node ib m' pb bs) r)
    (him : 3 ≤ s.internalMaxSize) (hunder : as.length + 1 = (m + 1) / 2)
    (hmax : m < as.length + bs.length) (hfits : bs.length ≤ m') :
    Redistributed s id p m'' [] (ka, node ia m pa as) (kb, node ib m' pb bs) r
      (s.redistribute ib ia 0 false) := by
  obtain ⟨hab, hia, hib, -, -⟩ := hw.distinct_inner
  have hpa : pa = id := hw.parent_left
  obtain ⟨hm, -, hsa⟩ := sized_node.mp hw.sized_left
  obtain ⟨hm', -, hsb⟩ := sized_node.mp hw.sized_right
  obtain ⟨e, b₁, bs', rfl⟩ : ∃ e b₁ bs', bs = e :: b₁ :: bs' := by
    match bs with
    | [] | [_] =>
      simp only [List.length_nil, List.length_singleton] at hmax
      omega
    | e :: b₁ :: bs' => exact ⟨e, b₁, bs', rfl⟩
  simp only [List.length_cons] at hmax hfits
  have hrun := BPlusTree.redistribute_inner_right hw.page (rep_node.mp hw.rep_left).1
    (rep_node.mp hw.rep_right).1 hpa
  obtain ⟨hothers, he, hpages, hframe⟩ := hw.setParent_child
    (show as ++ e :: b₁ :: bs' = as ++ e :: b₁ :: bs' from rfl)
    (fun q hid ha hb => borrowedPages_of_ne hid ha hb) pa
  refine ⟨_, node ia m pa (as ++ [(kb, e.2.setParent pa)]),
    (⟨m', pb, slots ((e.1, b₁.2) :: bs')⟩ : InternalPage K).keyAt 1,
    node ib m' pb ((e.1, b₁.2) :: bs'), hrun, ?_, ?_, fun hlatched => ?_⟩
  · refine rebalanced_inner hw ?_ ?_ hframe rfl rfl rfl rfl ?_
      fun hshrunk => hshrunk.borrowFirst (hpa ▸ hia.symm) _
    · exact (hpages id (.inl rfl)).trans borrowedPages_self
    · simp only [List.forall_mem_cons]
      refine ⟨rep_node.mpr ⟨?_, fun c hc => ?_⟩, rep_node.mpr ⟨?_, ?_⟩,
        fun _ hc => absurd hc List.not_mem_nil⟩
      · exact (hpages ia (.inr (.inl rfl))).trans (borrowedPages_node hia hab)
      · rcases List.mem_append.mp hc with hc | hc
        · exact hothers c (by simp [hc])
        · rw [List.mem_singleton.mp hc]
          exact he
      · exact (hpages ib (.inr (.inr rfl))).trans (borrowedPages_sibling hib)
      · simp only [List.forall_mem_cons]
        exact ⟨hothers b₁ (by simp), fun c hc => hothers c (by simp [hc])⟩
    · simp only [List.forall_mem_cons]
      refine ⟨⟨fits_node.mpr ?_, sized_node.mpr ⟨hm, by simp, fun c hc => ?_⟩⟩,
        ⟨fits_node.mpr ?_, sized_node.mpr ⟨hm', List.cons_ne_nil _ _, ?_⟩⟩,
        fun _ hc => absurd hc List.not_mem_nil⟩
      · rw [List.length_append, List.length_singleton]
        omega
      · rcases List.mem_append.mp hc with hc | hc
        · exact hsa c hc
        · rw [List.mem_singleton.mp hc, fits_setParent, sized_setParent]
          exact hsb e List.mem_cons_self
      · simp only [List.length_cons]
        omega
      · simp only [List.forall_mem_cons]
        exact ⟨hsb b₁ (by simp), fun c hc => hsb c (by simp [hc])⟩
  · show (((_ :: _ :: s.log.live).erase _).erase _) = _
    rw [List.erase_cons_head, List.erase_cons_head]
  · rintro ⟨-, hno⟩
    exact not_noRelatch hlatched hno

end Inner

/-! ## One step of `CoalesceOrRedistribute` -/

section Step

variable {s s₁ : BPlusTree K V} {id p : PageId} {m : Nat} {l r new : List (K × BTree K V h)}
  {a b : K × BTree K V h}

omit [Inhabited V] in
/-- **`Coalesce`**, at any height. -/
theorem Window.coalesce (hw : Window s id p m l a b r)
    (hmin : a.2.page.getMinSize ≤ a.2.page.getSize + b.2.page.getSize)
    (hmax : a.2.page.getSize + b.2.page.getSize ≤ a.2.page.getMaxSize) :
    Coalesced s id p m l a b r := by
  obtain ⟨ka, ta⟩ := a
  obtain ⟨kb, tb⟩ := b
  cases h with
  | zero =>
    obtain ⟨ia, pa, rfl⟩ := ta.exists_leaf
    obtain ⟨ib, pb, rfl⟩ := tb.exists_leaf
    exact hw.coalesce_leaves hmin hmax
  | succ h =>
    obtain ⟨ia, ma, pa, as, rfl⟩ := ta.exists_node
    obtain ⟨ib, mb, pb, bs, rfl⟩ := tb.exists_node
    obtain ⟨b₀, bs, rfl⟩ := List.exists_cons_of_ne_nil (sized_node.mp hw.sized_right).2.1
    simp only [BTree.page, TreePage.getSize, length_slots] at hmin hmax
    exact hw.coalesce_inner hmin hmax

/-- **`Redistribute`** from the left neighbour, at any height. -/
theorem Window.redistribute_left (hw : Window s id p m l a b r) (hlm : 2 ≤ s.leafMaxSize)
    (him : 0 < h → 3 ≤ s.internalMaxSize) (hunder : b.2.page.getSize + 1 = b.2.page.getMinSize)
    (hmax : b.2.page.getMaxSize < b.2.page.getSize + a.2.page.getSize) (hfits : a.2.Fits) :
    Redistributed s id p m l a b r (s.redistribute a.2.id b.2.id (l.length + 1) true) := by
  obtain ⟨ka, ta⟩ := a
  obtain ⟨kb, tb⟩ := b
  cases h with
  | zero =>
    obtain ⟨ia, pa, rfl⟩ := ta.exists_leaf
    obtain ⟨ib, pb, rfl⟩ := tb.exists_leaf
    exact hw.redistribute_leaves_left hlm hunder hmax hfits.2
  | succ h =>
    obtain ⟨ia, ma, pa, as, rfl⟩ := ta.exists_node
    obtain ⟨ib, mb, pb, bs, rfl⟩ := tb.exists_node
    obtain ⟨b₀, bs, rfl⟩ := List.exists_cons_of_ne_nil (sized_node.mp hw.sized_right).2.1
    simp only [BTree.page, TreePage.getSize, length_slots] at hunder hmax
    exact hw.redistribute_inner_left (him (Nat.succ_pos h)) hunder hmax (fits_node.mp hfits).2

/-- **`Redistribute`** from the right neighbour, at any height. -/
theorem Window.redistribute_right (hw : Window s id p m [] a b r) (hlm : 2 ≤ s.leafMaxSize)
    (him : 0 < h → 3 ≤ s.internalMaxSize) (hunder : a.2.page.getSize + 1 = a.2.page.getMinSize)
    (hmax : a.2.page.getMaxSize < a.2.page.getSize + b.2.page.getSize) (hfits : b.2.Fits) :
    Redistributed s id p m [] a b r (s.redistribute b.2.id a.2.id 0 false) := by
  obtain ⟨ka, ta⟩ := a
  obtain ⟨kb, tb⟩ := b
  cases h with
  | zero =>
    obtain ⟨ia, pa, rfl⟩ := ta.exists_leaf
    obtain ⟨ib, pb, rfl⟩ := tb.exists_leaf
    exact hw.redistribute_leaves_right hlm hunder hmax hfits.2
  | succ h =>
    obtain ⟨ia, ma, pa, as, rfl⟩ := ta.exists_node
    obtain ⟨ib, mb, pb, bs, rfl⟩ := tb.exists_node
    simp only [BTree.page, TreePage.getSize, length_slots] at hunder hmax
    exact hw.redistribute_inner_right (him (Nat.succ_pos h)) hunder hmax (fits_node.mp hfits).2

omit [Inhabited K] [Inhabited V] in
/-- Guards do not write. -/
theorem Rebalanced.setLog {log log' : GuardLog}
    (hreb : Rebalanced { s with log } s₁ id p m l a b r new) :
    Rebalanced s { s₁ with log := log' } id p m l a b r new :=
  ⟨hreb.rep, ⟨hreb.touched.frame, hreb.touched.next, hreb.touched.leafMaxSize,
    hreb.touched.internalMaxSize, hreb.touched.root⟩, hreb.sized, hreb.shrunk⟩

/-- **One step**: the two pages are merged and the page above them is next if it is now
underfull, or one page borrows from the other. -/
inductive Stepped (s : BPlusTree K V) (id p : PageId) (m : Nat) (l : List (K × BTree K V h))
    (a b : K × BTree K V h) (r : List (K × BTree K V h)) (n : Nat) (merges : Prop) :
    Option (Bool × BPlusTree K V) → Prop where
  | merge {s₁ : BPlusTree K V} {t : BTree K V h} :
      merges → Rebalanced s s₁ id p m l a b r [(a.1, t)] → s₁.log.Ok [(id, .write)] →
      Stepped s id p m l a b r n merges
        (if l.length + r.length + 1 < (m + 1) / 2 then s₁.coalesceOrRedistribute n id
        else some (false, s₁.drop id .write))
  | borrow {s₁ : BPlusTree K V} {t t' : BTree K V h} {k : K} :
      ¬ merges → Rebalanced s s₁ id p m l a b r [(a.1, t), (k, t')] → s₁.log.live = [] →
      ¬ s₁.log.NoRelatch → Stepped s id p m l a b r n merges (some (false, s₁))

/-- What follows `Coalesce`. -/
theorem Stepped.of_coalesced {merges : Prop} {node sibling : PageId} {log : GuardLog}
    (hmerges : merges) (hco : Coalesced { s with log } id p m l a b r)
    (hlog : log.Ok [(sibling, .write), (id, .write), (node, .write)])
    (hheld : (node = a.2.id ∨ node = b.2.id) ∧ (sibling = a.2.id ∨ sibling = b.2.id))
    (hns : sibling ≠ node) (hid : node ≠ id) (n : Nat) :
    Stepped s id p m l a b r n merges
      ((({ s with log } : BPlusTree K V).coalesce a.2.id b.2.id id l.length).bind
        (afterCoalesce n node sibling id)) := by
  obtain ⟨s₁, t, hrun, hreb, hkeep⟩ := hco
  have hlog₁ : s₁.log.Ok [(sibling, .write), (id, .write), (node, .write)] := by
    refine hkeep _ hlog fun g hg => ?_
    simp only [List.mem_cons, List.not_mem_nil, or_false] at hg
    rcases hg with rfl | rfl | rfl
    · exact .inr hheld.2
    · exact .inl rfl
    · exact .inr hheld.1
  have hlog₂ : GuardLog.Ok (.release node .write :: s₁.log) [(sibling, .write), (id, .write)] := by
    have hlog₂ := hlog₁.release node .write
    rwa [List.erase_cons_tail (by simp [hns]), List.erase_cons_tail (by simp [hid.symm]),
      List.erase_cons_head] at hlog₂
  rw [hrun, Option.bind_some, afterCoalesce]
  have hstep := @Stepped.merge K V _ _ _ h s id p m l a b r n merges
    ((s₁.drop node .write).drop sibling .write) t hmerges hreb.setLog hlog₂.release_head
  simpa only [decide_eq_true_eq] using hstep

/-- What follows `Redistribute`. -/
theorem Stepped.of_redistributed {merges : Prop} {node sibling : PageId} {log : GuardLog}
    {run : Option (BPlusTree K V)} (hmerges : ¬ merges)
    (hre : Redistributed { s with log } id p m l a b r run)
    (hlog : log.Ok [(sibling, .write), (id, .write), (node, .write)]) (n : Nat) :
    Stepped s id p m l a b r n merges (run.bind (afterRedistribute node sibling id)) := by
  obtain ⟨s₁, t, k, t', rfl, hreb, hlive, hrelatch⟩ := hre
  rw [Option.bind_some, afterRedistribute]
  refine .borrow hmerges hreb.setLog ?_ ?_
  · show (((s₁.log.live.erase _).erase _).erase _) = _
    rw [hlive]
    show (((log.live.erase _).erase _).erase _) = _
    rw [hlog.live, List.erase_cons_head, List.erase_cons_head, List.erase_cons_head]
  · refine hrelatch (.inr ?_)
    show _ ∈ log.live
    rw [hlog.live]
    simp

omit [LinearOrder K] [Inhabited K] [Inhabited V] in
/-- The latches on the page above and on the neighbour. -/
theorem paired_log {node sibling : PageId} (hlog : s.log.Ok [(node, .write)]) (hid : node ≠ id)
    (hns : sibling ≠ node) (hsid : sibling ≠ id) :
    (s.paired id sibling).log.Ok [(sibling, .write), (id, .write), (node, .write)] := by
  have hlog₁ : GuardLog.Ok (.acquire id .write :: s.log) [(id, .write), (node, .write)] :=
    hlog.acquire fun g hg => by
      rw [List.mem_singleton.mp hg]
      exact hid
  refine hlog₁.acquire fun g hg => ?_
  rcases List.mem_cons.mp hg with rfl | hg
  · exact hsid.symm
  · rw [List.mem_singleton.mp hg]
    exact hns.symm

omit [LinearOrder K] [Inhabited K] [Inhabited V] in
/-- The two pages and the page above them are distinct. -/
theorem Window.ne (hw : Window s id p m l a b r) :
    a.2.id ≠ b.2.id ∧ a.2.id ≠ id ∧ b.2.id ≠ id := by
  obtain ⟨hnodup, hid, -⟩ := hw.distinct
  refine ⟨?_, hid _ (List.mem_append_left _ (id_mem_ids _)),
    hid _ (List.mem_append_right _ (id_mem_ids _))⟩
  exact (List.nodup_append.mp hnodup).2.2 _ (id_mem_ids _) _ (id_mem_ids _)

/-- **The right page is underfull.** -/
theorem Window.step_left (hw : Window s id p m l a b r) (hlm : 2 ≤ s.leafMaxSize)
    (him : 0 < h → 3 ≤ s.internalMaxSize) (hunder : b.2.page.getSize + 1 = b.2.page.getMinSize)
    (hfits : a.2.Fits) (hlog : s.log.Ok [(b.2.id, .write)]) (n : Nat) :
    Stepped s id p m l a b r n (b.2.page.getSize + a.2.page.getSize ≤ b.2.page.getMaxSize)
      (s.coalesceOrRedistribute (n + 1) b.2.id) := by
  obtain ⟨hab, hia, hib⟩ := hw.ne
  obtain ⟨hmaxs, -⟩ := hw.sized_left.bounds_eq hw.sized_right
  have hdistinct : ∀ x ∈ l ++ [a], x.2.id ≠ b.2.id := by
    intro x hx
    rcases List.mem_append.mp hx with hx | hx
    · intro heq
      refine (hw.distinct.2.2 x (List.mem_append_left _ hx) x.2.id (id_mem_ids _)).2 ?_
      exact List.mem_append_right _ (heq ▸ id_mem_ids _)
    · rw [List.mem_singleton.mp hx]
      exact hab
  have hlog' := paired_log hlog hib hab hia
  rw [coalesceOrRedistribute_left hw.page hw.rep_left.page hw.rep_right.page hw.parent_right
    hw.id_ne
    (by omega) hdistinct]
  by_cases hmerges : b.2.page.getSize + a.2.page.getSize ≤ b.2.page.getMaxSize
  · rw [if_pos hmerges]
    refine .of_coalesced hmerges ((hw.setLog _).coalesce ?_ ?_) hlog' ⟨.inr rfl, .inl rfl⟩ hab hib n
    · exact Nat.le_trans hfits.1 (Nat.le_add_right _ _)
    · omega
  · rw [if_neg hmerges]
    have hw' := hw.setLog (s.paired id a.2.id).log
    exact .of_redistributed hmerges
      (hw'.redistribute_left hlm him hunder (Nat.not_le.mp hmerges) hfits) hlog' n

/-- **The left page is underfull**, and has no left neighbour. -/
theorem Window.step_right (hw : Window s id p m [] a b r) (hlm : 2 ≤ s.leafMaxSize)
    (him : 0 < h → 3 ≤ s.internalMaxSize) (hunder : a.2.page.getSize + 1 = a.2.page.getMinSize)
    (hfits : b.2.Fits) (hlog : s.log.Ok [(a.2.id, .write)]) (n : Nat) :
    Stepped s id p m [] a b r n (a.2.page.getSize + b.2.page.getSize ≤ a.2.page.getMaxSize)
      (s.coalesceOrRedistribute (n + 1) a.2.id) := by
  obtain ⟨hab, hia, hib⟩ := hw.ne
  obtain ⟨-, hmins⟩ := hw.sized_left.bounds_eq hw.sized_right
  have hlog' := paired_log hlog hia hab.symm hib
  rw [coalesceOrRedistribute_right hw.page hw.rep_left.page hw.rep_right.page hw.parent_left
    hw.id_ne
    (by omega)]
  by_cases hmerges : a.2.page.getSize + b.2.page.getSize ≤ a.2.page.getMaxSize
  · rw [if_pos hmerges]
    refine .of_coalesced hmerges ((hw.setLog _).coalesce ?_ hmerges) hlog' ⟨.inl rfl, .inr rfl⟩
      hab.symm hia n
    rw [hmins]
    exact Nat.le_trans hfits.1 (Nat.le_add_left _ _)
  · rw [if_neg hmerges]
    have hw' := hw.setLog (s.paired id b.2.id).log
    exact .of_redistributed hmerges
      (hw'.redistribute_right hlm him hunder (Nat.not_le.mp hmerges) hfits) hlog' n

end Step

end BPlusTree

end OneBase
