import OneBase.Index.RemoveBounds
import OneBase.Index.RemoveRefines

/-!
# The step of `CoalesceOrRedistribute` below a page of leaves

A leaf that became underfull is merged with a neighbour, or borrows an entry from it. This
is the part of `Remove` that does not touch children of internal pages, and it is right
wherever the leaf is in the tree.

- `BTree.Inside`: a subtree of a tree, and what it inherits from it.
- `BTree.Inside.sibling`: there is a neighbour to merge with or to borrow from.
- `leafStep_keeps`: entries, order, sizes, separators and the chain of leaves after the step,
  where a merge fits in a page.
-/

namespace OneBase

namespace BTree

variable {K V : Type} {h h' : Nat}

/-- `x` is a subtree of a tree. -/
inductive Inside (x : BTree K V h') : {h : Nat} → BTree K V h → Prop where
  | self : Inside x x
  | down {h : Nat} {id p : PageId} {m : Nat} {cs : List (K × BTree K V h)}
      {c : K × BTree K V h} : c ∈ cs → Inside x c.2 → Inside x (node id m p cs)

namespace Inside

variable [LinearOrder K] {x : BTree K V h'} {t : BTree K V h} {s : BPlusTree K V}

/-- **What a subtree inherits.** -/
theorem sub (hin : Inside x t) (hsub : s.Sub t) : s.Sub x := by
  induction hin with
  | self => exact hsub
  | down hc hin ih => exact ih (hsub.child hc).1

omit [LinearOrder K] in
/-- The leaves of a subtree are neighbours in the chain. -/
theorem exists_chain (hin : Inside x t) : ∃ l r, t.chain = l ++ x.chain ++ r := by
  induction hin with
  | self => exact ⟨[], [], by simp⟩
  | @down h id p m cs c hc hin ih =>
    obtain ⟨l, r, hchain⟩ := ih
    obtain ⟨cl, cr, rfl⟩ := List.append_of_mem hc
    refine ⟨cl.flatMap (fun c => c.2.chain) ++ l, r ++ cr.flatMap (fun c => c.2.chain), ?_⟩
    rw [chain_node, List.flatMap_append, List.flatMap_cons, hchain]
    simp only [List.append_assoc]

omit [LinearOrder K] in
/-- An internal page of a tree has two children: the root by `RootMin`, the others as they are
not underfull. -/
theorem two_le_children {id p : PageId} {m lm im : Nat} {cs : List (K × BTree K V h')}
    (hin : Inside (node id m p cs) t) (hsized : t.Sized lm im) (him : 3 ≤ im)
    (hmin : t.RootMin ∨ t.Fits) : 2 ≤ cs.length := by
  induction hin with
  | self =>
    rcases hmin with hmin | hfits
    · exact rootMin_node.mp hmin
    · have hlen := (fits_node.mp hfits).1
      rw [hsized.1] at hlen
      omega
  | down hc hin ih => exact ih (hsized.2.2 _ hc).2 (.inr (hsized.2.2 _ hc).1)

omit [LinearOrder K] in
/-- A child of an internal page has a sibling. -/
theorem sibling {id p : PageId} {m lm im : Nat} {l r : List (K × BTree K V h')}
    {c : K × BTree K V h'} (hin : Inside (node id m p (l ++ c :: r)) t) (hsized : t.Sized lm im)
    (him : 3 ≤ im) (hmin : t.RootMin) : l ++ r ≠ [] := by
  have hlen := hin.two_le_children hsized him (.inl hmin)
  intro hnil
  obtain ⟨rfl, rfl⟩ := List.append_eq_nil_iff.mp hnil
  exact absurd hlen (Nat.not_le.mpr Nat.one_lt_two)

end Inside

end BTree

namespace BPlusTree

open BTree

variable {K V : Type} [LinearOrder K] [Inhabited K] [Inhabited V] {h : Nat}

/-- **The leaves below a page after the step.** They were `cs` before it, and are `cs'`; in
the chain, `before` and `after` are the leaves elsewhere. -/
structure LeavesKept (s s₁ : BPlusTree K V) (id p : PageId) (m : Nat)
    (cs cs' : List (K × BTree K V 0)) (before after : List (PageId × PageId)) : Prop where
  rep : (node id m p cs').Rep s₁.pages
  frame : ∀ q, q ∉ (node id m p cs).ids → s₁.pages q = s.pages q
  entries : (cs'.flatMap fun c => c.2.entries) = cs.flatMap fun c => c.2.entries
  sorted : ∀ c ∈ cs', Increasing c.2.entries
  nonempty : ∀ c ∈ cs', c.2.entries ≠ []
  within : ∀ c ∈ cs', c.2.page.getSize ≤ c.2.page.getMaxSize
  separated : Separated cs'
  chained : Chained (before ++ cs'.flatMap (fun c => c.2.chain) ++ after) invalidPageId

/-- The store when `CoalesceOrRedistribute` is called on a leaf: the leaf is written, and the
guards have left the log `log`. -/
def leafWritten (s : BPlusTree K V) (leafId : PageId) (page : LeafPage K V) (log : GuardLog) :
    BPlusTree K V :=
  { s.write leafId (.leaf page) with log }

section LeafStep

variable {s s₁ s₂ : BPlusTree K V} {key : K} {id p : PageId} {m : Nat}
  {l r l' r' new : List (K × BTree K V 0)} {a b c : K × BTree K V 0} {t₁ : BTree K V 0}

omit [Inhabited K] [Inhabited V] in
/-- Lists of entries in key order are equal if the same entry was taken out of one list. -/
theorem eq_of_increasing {v v' : V} {es es₁ es₂ : List (K × V)} (hes : Increasing es)
    (h₁ : es.Perm ((key, v) :: es₁)) (h₂ : es.Perm ((key, v') :: es₂)) (hinc₁ : Increasing es₁)
    (hinc₂ : Increasing es₂) : es₁ = es₂ := by
  have hv : v = v' :=
    hes.unique (h₁.mem_iff.mpr List.mem_cons_self) (h₂.mem_iff.mpr List.mem_cons_self)
  subst hv
  have hperm : es₁.Perm es₂ := (h₁.symm.trans h₂).cons_inv
  exact hperm.eq_of_pairwise (fun x y _ _ hxy hyx => absurd (hxy.trans hyx) (lt_irrefl _)) hinc₁
    hinc₂

omit [Inhabited V] in
/-- **What took the place of two neighbours**, seen from the page above them. -/
theorem ChildRemoved.leavesKept {before after : List (PageId × PageId)}
    (habove : ChildRemoved s s₁ key id p m l c r t₁) (hsub : s.Sub (node id m p (l ++ c :: r)))
    (hlm : 2 ≤ s.leafMaxSize) (hcs : l ++ (c.1, t₁) :: r = l' ++ a :: b :: r')
    (hothers : ∀ x ∈ l' ++ r', x ∈ l ++ c :: r) (hreb : Rebalanced s₁ s₂ id p m l' a b r' new)
    (hchain : Chained (before ++ (l ++ c :: r).flatMap (fun c => c.2.chain) ++ after)
      invalidPageId) :
    LeavesKept s₁ s₂ id p m (l ++ (c.1, t₁) :: r) (l' ++ (new ++ r')) before after := by
  have hleaf : ∀ {t : BTree K V 0}, ¬ Cascades key t := fun hcascades => hcascades
  have hstays := habove.children
  have hchildren := habove.children
  rw [hcs] at hchildren
  have hshrunk := hreb.shrunk (fun _ => hleaf) hchildren
  have hnot : ¬ (0 < 0) := Nat.lt_irrefl 0
  -- the children that are new fit, and the others did before
  have hsized : ∀ x ∈ l' ++ (new ++ r'), x.2.Fits ∧ x.2.Sized s.leafMaxSize s.internalMaxSize := by
    intro x hx
    rcases List.mem_append.mp hx with hx | hx
    · exact hsub.sized.2.2 x (hothers x (List.mem_append_left _ hx))
    · rcases List.mem_append.mp hx with hx | hx
      · have hsized := hreb.sized x hx
        rwa [habove.touched.leafMaxSize, habove.touched.internalMaxSize] at hsized
      · exact hsub.sized.2.2 x (hothers x (List.mem_append_right _ hx))
  have hordered : (node id m p (l' ++ (new ++ r'))).Ordered :=
    ⟨hshrunk.separated hnot, hshrunk.ordered hnot⟩
  have hordered₁ : (node id m p (l ++ (c.1, t₁) :: r)).Ordered :=
    ⟨hstays.separated hleaf, hstays.ordered hleaf⟩
  have hincreasing : ∀ {cs : List (K × BTree K V 0)}, (node id m p cs).Ordered →
      Increasing (cs.flatMap fun c => c.2.entries) := fun hordered =>
    entries_node (V := V) ▸ hordered.increasing
  refine ⟨hreb.rep, ?_, ?_, fun x hx => (hordered.2 x hx).increasing, fun x hx => ?_,
    fun x hx => (hsized x hx).1.2, hordered.1, ?_⟩
  · rw [hcs]
    exact hreb.touched.frame
  · obtain ⟨v, hbefore⟩ := hstays.entries
    obtain ⟨v', hafter⟩ := hshrunk.entries
    exact eq_of_increasing (hincreasing hsub.ordered) hafter hbefore (hincreasing hordered)
      (hincreasing hordered₁)
  · exact entries_ne_nil hlm (hsized x hx).2 (hsized x hx).1
  · rw [List.append_assoc, chained_append, chained_append, firstId_append] at hchain ⊢
    rw [hshrunk.first hnot]
    exact ⟨hchain.1, hshrunk.chain hnot _ hchain.2.1, hchain.2.2⟩

/-- **The step below a page of leaves**: what stands there when it ends, or when it goes on
with the page itself. -/
theorem ChildRemoved.leafStep {before after : List (PageId × PageId)} {merges : Prop} {n : Nat}
    {run : Option (Bool × BPlusTree K V)}
    (habove : ChildRemoved s s₁ key id p m l c r t₁) (hsub : s.Sub (node id m p (l ++ c :: r)))
    (hlm : 2 ≤ s.leafMaxSize) (hcs : l ++ (c.1, t₁) :: r = l' ++ a :: b :: r')
    (hothers : ∀ x ∈ l' ++ r', x ∈ l ++ c :: r)
    (hchain : Chained (before ++ (l ++ c :: r).flatMap (fun c => c.2.chain) ++ after) invalidPageId)
    (hstep : Stepped s₁ id p m l' a b r' n merges run) :
    ∃ s₂ cs', LeavesKept s₁ s₂ id p m (l ++ (c.1, t₁) :: r) cs' before after ∧
      (run = some (false, s₂) ∨
        cs'.length < (m + 1) / 2 ∧ run = s₂.coalesceOrRedistribute n id) := by
  cases hstep with
  | @merge s₂ t hmerges hreb hlog =>
    have hlen : (l' ++ ([(a.1, t)] ++ r')).length = l'.length + r'.length + 1 := by
      simp only [List.length_append, List.length_cons, List.length_nil]
      omega
    by_cases hlt : l'.length + r'.length + 1 < (m + 1) / 2
    · rw [if_pos hlt]
      exact ⟨s₂, _, habove.leavesKept hsub hlm hcs hothers hreb hchain, .inr ⟨hlen ▸ hlt, rfl⟩⟩
    · rw [if_neg hlt]
      exact ⟨_, _, habove.leavesKept hsub hlm hcs hothers hreb.setLog hchain, .inl rfl⟩
  | @borrow s₂ t t' k hmerges hreb hlive hrelatch =>
    exact ⟨s₂, _, habove.leavesKept hsub hlm hcs hothers hreb hchain, .inl rfl⟩

/-- A leaf that was not underfull before the removal has lost an entry, and misses one now. -/
theorem removed_of_underfull {page page' : LeafPage K V} (hordered : Increasing page.array)
    (hpage : page.maxSize / 2 ≤ page.array.length)
    (hremoved : page' = page.removeAndDeleteRecord key)
    (hunder : page'.array.length < (TreePage.leaf page').getMinSize) :
    ∃ el v er, page.array = el ++ (key, v) :: er ∧ page' = { page with array := el ++ er } ∧
      page'.array.length + 1 = page.maxSize / 2 := by
  rcases LeafPage.removeAndDeleteRecord_cases hordered key with
    ⟨-, hsame⟩ | ⟨el, v, er, harray, hremove⟩
  · rw [hremoved, hsame] at hunder
    exact absurd hpage (Nat.not_le.mpr hunder)
  · rw [hremove] at hremoved
    subst hremoved
    have hlen := congrArg List.length harray
    have hlt : (el ++ er).length < page.maxSize / 2 := hunder
    refine ⟨el, v, er, harray, rfl, ?_⟩
    simp only [List.length_append, List.length_cons] at hlen hlt ⊢
    omega

/-- **The elements that the step writes** are inside their pages if and only if a merge with the
sibling fits in one. -/
theorem leafStep_writes_inBounds_iff {t : BTree K V h} {k : K} {leafId : PageId}
    {page page' : LeafPage K V} (hwf : s.WellFormed t)
    (hin : Inside (node id m p (l ++ (k, leaf leafId page) :: r)) t)
    (hpages : (node id m p (l ++ (k, leaf leafId page) :: r)).InPages)
    (hremoved : page' = page.removeAndDeleteRecord key)
    (hunder : page'.array.length < (TreePage.leaf page').getMinSize)
    (hsibling : (l ++ (k, leaf leafId page) :: r)[siblingIndex l.length]? = some b)
    (log : GuardLog) :
    (∀ w ∈ (s.leafWritten leafId page' log).coalesceOrRedistributeWrites 1 leafId, w.InBounds) ↔
      (page'.array.length + b.2.page.getSize ≤ page.maxSize →
        page'.array.length + b.2.page.getSize ≤ leafCapacity) := by
  have hsub := hin.sub hwf.sub
  have hmem : (k, leaf leafId page) ∈ l ++ (k, leaf leafId page) :: r :=
    List.mem_append_right l List.mem_cons_self
  obtain ⟨hchild, -, hfits⟩ := hsub.child hmem
  have hpage : page.maxSize / 2 ≤ page.array.length := (fits_leaf.mp hfits).1
  obtain ⟨el, v, er, harray, rfl, -⟩ := removed_of_underfull hchild.ordered hpage hremoved hunder
  have hlen : (el ++ er).length + 1 = page.array.length := by
    rw [harray]
    simp only [List.length_append, List.length_cons]
    omega
  have hlost : LostOne s (s.leafWritten leafId { page with array := el ++ er } log)
      (leaf leafId page) (.leaf { page with array := el ++ er }) := by
    refine ⟨⟨Int.le_refl _, fun q _ hq => ?_⟩, Function.update_self .., rfl, hlen, rfl, rfl,
      fun q hq => absurd hq List.not_mem_nil⟩
    have hne : q ≠ leafId := by
      rintro rfl
      exact hq List.mem_cons_self
    exact Function.update_of_ne hne _ _
  obtain ⟨ws, s₂, kept, hrun, hwrites, -⟩ := LostOne.step (c := (k, leaf leafId page)) hlost hsub
    hpages (fun hpos => absurd hpos (Nat.lt_irrefl 0)) hsibling hunder 0
  -- with no fuel left, the step is all that is written
  have hall : (s.leafWritten leafId
      { page with array := el ++ er } log).coalesceOrRedistributeWrites 1 leafId = ws := by
    refine hrun.trans ?_
    split
    · exact List.append_nil ws
    · exact List.append_nil ws
  rw [hall]
  exact hwrites

/-- **The step below a page of leaves keeps them right**, anywhere in a well-formed tree. The
leaf `leafId` became underfull when an entry was removed from it. -/
theorem leafStep_keeps {t : BTree K V h} {k : K} {leafId : PageId} {page page' : LeafPage K V}
    {log : GuardLog} (hwf : s.WellFormed t)
    (hin : Inside (node id m p (l ++ (k, leaf leafId page) :: r)) t) (hsibling : l ++ r ≠ [])
    (hpages : (node id m p (l ++ (k, leaf leafId page) :: r)).InPages)
    (hremoved : page' = page.removeAndDeleteRecord key)
    (hunder : page'.array.length < (TreePage.leaf page').getMinSize)
    (hroom : ∀ b ∈ (l ++ (k, leaf leafId page) :: r)[siblingIndex l.length]?,
      page'.array.length + b.2.page.getSize ≤ page.maxSize →
        page'.array.length + b.2.page.getSize ≤ leafCapacity)
    (hlog : log.Ok [(leafId, .write)]) (n : Nat) :
    (∀ w ∈ (s.leafWritten leafId page' log).coalesceOrRedistributeWrites 1 leafId, w.InBounds) ∧
    ∃ s₂ cs' before after,
      t.chain = before ++ (l ++ (k, leaf leafId page) :: r).flatMap (fun c => c.2.chain) ++ after ∧
      LeavesKept (s.leafWritten leafId page' log) s₂ id p m (l ++ (k, leaf leafId page') :: r) cs'
        before after ∧
      ((s.leafWritten leafId page' log).coalesceOrRedistribute (n + 1) leafId = some (false, s₂) ∨
        cs'.length < (m + 1) / 2 ∧
          (s.leafWritten leafId page' log).coalesceOrRedistribute (n + 1) leafId =
            s₂.coalesceOrRedistribute n id) := by
  have hsub := hin.sub hwf.sub
  constructor
  · have hlen : 2 ≤ (l ++ (k, leaf leafId page) :: r).length := by
      have hpos := List.length_pos_iff.mpr hsibling
      simp only [List.length_append, List.length_cons] at hpos ⊢
      omega
    obtain ⟨b, hb⟩ := exists_sibling hlen
    exact (leafStep_writes_inBounds_iff hwf hin hpages hremoved hunder hb log).mpr (hroom b hb)
  obtain ⟨before, after, hchain⟩ := hin.exists_chain
  have hchained := hwf.chained
  rw [hchain, chain_node] at hchained
  have hid : id ≠ invalidPageId := by
    rintro rfl
    exact absurd hsub.id_alloc.1 (by decide)
  have hmem : (k, leaf leafId page) ∈ l ++ (k, leaf leafId page) :: r :=
    List.mem_append_right l List.mem_cons_self
  obtain ⟨hchild, -, hfits⟩ := hsub.child hmem
  have hmax : page.maxSize = s.leafMaxSize := hchild.sized
  have hpage : page.maxSize / 2 ≤ page.array.length := (fits_leaf.mp hfits).1
  obtain ⟨el, v, er, harray, hremove, hlen⟩ :=
    removed_of_underfull hchild.ordered hpage hremoved hunder
  have hrem : Removes s (s.leafWritten leafId page' log) key (leaf leafId page)
      (leaf leafId page') := hremove ▸ removes_leaf leafId hmax hchild.ordered harray log
  have hmin : (leaf leafId page').page.getMinSize = page.maxSize / 2 := by
    rw [hremove]
    rfl
  have hunder' : (leaf leafId page').page.getSize + 1 = (leaf leafId page').page.getMinSize :=
    hlen.trans hmin.symm
  have hlm : 2 ≤ s.leafMaxSize := by omega
  have habove := hsub.childRemoved hrem
  refine (?_ : ∃ s₂ cs', _ ∧ _).imp fun s₂ h => h.imp fun cs' h => ⟨before, after, ?_, h⟩
  · rcases List.eq_nil_or_concat l with rfl | ⟨l', a, rfl⟩
    · -- the first leaf is paired with the second
      cases r with
      | nil => exact absurd rfl hsibling
      | cons b r =>
        have hw := habove.window hsub hrem.shrinks hid rfl
        have hfits : b.2.Fits := (hsub.sized.2.2 b (by simp)).1
        refine habove.leafStep hsub hlm rfl (fun x hx => ?_) hchained
          (hw.step_right hlm (fun hpos => absurd hpos (Nat.lt_irrefl 0)) hunder' hfits hlog n)
        simp only [List.nil_append] at hx
        simp [hx]
    · -- another leaf is paired with the one to its left
      have hcs : l'.concat a ++ (k, leaf leafId page') :: r =
          l' ++ a :: (k, leaf leafId page') :: r := by simp
      have hw := habove.window hsub hrem.shrinks hid hcs
      have hfits : a.2.Fits := (hsub.sized.2.2 a (by simp)).1
      refine habove.leafStep hsub hlm hcs (fun x hx => ?_) hchained
        (hw.step_left hlm (fun hpos => absurd hpos (Nat.lt_irrefl 0)) hunder' hfits hlog n)
      rcases List.mem_append.mp hx with hx | hx
      · simp [hx]
      · simp [hx]
  · rw [hchain, chain_node]

end LeafStep

/-- Two leaves with one entry each. -/
def pairTree : BTree Nat Nat 1 :=
  node 2 3 invalidPageId
    [(0, leaf 0 ⟨2, 2, 1, [(5, 50)]⟩), (7, leaf 1 ⟨2, 2, invalidPageId, [(7, 70)]⟩)]

theorem pairTree_wellFormed : (ofTree pairTree 2 3 3).WellFormed pairTree := by
  refine wellFormed_ofTree ?_ ?_ rfl ?_ ?_ ?_ ?_
  all_goals decide

/-- The first leaf loses its entry and takes that of the second. -/
theorem leafStep_keeps_pairTree :
    (∀ w ∈ ((ofTree pairTree 2 3 3).leafWritten 0 ⟨2, 2, 1, []⟩
        [.acquire 0 .write]).coalesceOrRedistributeWrites 1 0, w.InBounds) ∧
    ∃ s₂ cs', LeavesKept ((ofTree pairTree 2 3 3).leafWritten 0 ⟨2, 2, 1, []⟩ [.acquire 0 .write])
        s₂ 2 invalidPageId 3
        [(0, leaf 0 ⟨2, 2, 1, []⟩), (7, leaf 1 ⟨2, 2, invalidPageId, [(7, 70)]⟩)] cs' [] [] ∧
      (cs'.flatMap fun c => c.2.entries) = [(7, 70)] := by
  have hin : Inside (node 2 3 invalidPageId ([] ++ (0, leaf 0 ⟨2, 2, 1, [(5, 50)]⟩) ::
      [(7, leaf 1 ⟨2, 2, invalidPageId, [(7, 70)]⟩)])) pairTree := .self
  have hsibling := hin.sibling pairTree_wellFormed.sub.sized (by decide) (by decide)
  have hroom : ∀ b ∈ (([] ++ (0, leaf 0 ⟨2, 2, 1, [(5, 50)]⟩) ::
      [(7, leaf 1 ⟨2, 2, invalidPageId, [(7, 70)]⟩)]) :
        List (Nat × BTree Nat Nat 0))[siblingIndex 0]?,
      0 + b.2.page.getSize ≤ 2 → 0 + b.2.page.getSize ≤ leafCapacity := fun b _ hle =>
    hle.trans (by decide)
  obtain ⟨hwrites, s₂, cs', before, after, hchain, hkept, -⟩ := leafStep_keeps pairTree_wellFormed
    hin hsibling (by decide)
    (show (⟨2, 2, 1, []⟩ : LeafPage Nat Nat) =
      (⟨2, 2, 1, [(5, 50)]⟩ : LeafPage Nat Nat).removeAndDeleteRecord 5 from rfl) (by decide) hroom
    (show GuardLog.Ok [.acquire 0 .write] [(0, .write)] from ⟨rfl, .inr (by decide), trivial⟩) 0
  -- the tree has no other leaves
  have hlen : 2 = before.length + 2 + after.length := by
    have hlen := congrArg List.length hchain
    rwa [List.length_append, List.length_append] at hlen
  obtain rfl : before = [] := List.eq_nil_of_length_eq_zero (by omega)
  obtain rfl : after = [] := List.eq_nil_of_length_eq_zero (by omega)
  exact ⟨hwrites, s₂, cs', hkept, hkept.entries⟩

/-- Two leaves whose entries are no more than the maximum size, and more than fit in a page. -/
theorem leafStep_past_page :
    ¬ ∀ (h : Nat) (t : BTree Int RID h) (s : BPlusTree Int RID) (id p : PageId) (m : Nat)
      (l r : List (Int × BTree Int RID 0)) (k key : Int) (leafId : PageId)
      (page page' : LeafPage Int RID) (log : GuardLog), s.WellFormed t →
      Inside (node id m p (l ++ (k, leaf leafId page) :: r)) t → l ++ r ≠ [] →
      (node id m p (l ++ (k, leaf leafId page) :: r)).InPages →
      page' = page.removeAndDeleteRecord key →
      page'.array.length < (TreePage.leaf page').getMinSize → log.Ok [(leafId, .write)] →
      ∀ n : Nat,
      (∀ w ∈ (s.leafWritten leafId page' log).coalesceOrRedistributeWrites 1 leafId,
        w.InBounds) ∧
      ∃ s₂ cs' before after,
        t.chain = before ++ (l ++ (k, leaf leafId page) :: r).flatMap (fun c => c.2.chain) ++
          after ∧
        LeavesKept (s.leafWritten leafId page' log) s₂ id p m (l ++ (k, leaf leafId page') :: r) cs'
          before after ∧
        ((s.leafWritten leafId page' log).coalesceOrRedistribute (n + 1) leafId = some (false, s₂) ∨
          cs'.length < (m + 1) / 2 ∧
            (s.leafWritten leafId page' log).coalesceOrRedistribute (n + 1) leafId =
              s₂.coalesceOrRedistribute n id) := by
  intro hall
  have hin : Inside (node 2 3 invalidPageId ([] ++ (0, leaf 0 ⟨400, 2, 1, entriesFrom 0⟩) ::
      [(200, leaf 1 ⟨400, 2, invalidPageId, entriesFrom 200⟩)])) wideTree := .self
  have hmem : (0 : Int) ∈ (entriesFrom 0).map Prod.fst :=
    List.mem_map.mpr ⟨(0, {}), List.mem_map.mpr ⟨0, by decide, rfl⟩, rfl⟩
  have hordered : Increasing (⟨400, 2, 1, entriesFrom 0⟩ : LeafPage Int RID).array :=
    increasing_entriesFrom 0
  rcases LeafPage.removeAndDeleteRecord_cases hordered 0 with
    ⟨habsent, -⟩ | ⟨el, v, er, harray, hremove⟩
  · exact habsent hmem
  · have hlen : (el ++ er).length = 199 := by
      have hlen := (congrArg List.length harray).symm.trans (length_entriesFrom 0)
      simp only [List.length_append, List.length_cons] at hlen ⊢
      omega
    have hunder : (el ++ er).length < 400 / 2 := by omega
    obtain ⟨hwrites, -⟩ := hall 1 wideTree (ofTree wideTree 400 3 3) 2 invalidPageId 3 [] _ 0 0 0 _
      ⟨400, 2, 1, el ++ er⟩ [.acquire 0 .write] wideTree_wellFormed hin (List.cons_ne_nil _ _)
      wideTree_inPages hremove.symm hunder ⟨rfl, .inr (by decide), trivial⟩ 0
    -- 199 and 200 entries are no more than 400
    have hroom := (leafStep_writes_inBounds_iff
      (b := (200, leaf 1 ⟨400, 2, invalidPageId, entriesFrom 200⟩)) wideTree_wellFormed hin
      wideTree_inPages hremove.symm hunder rfl [.acquire 0 .write]).mp hwrites
    have hsize : (leaf 1 ⟨400, 2, invalidPageId, entriesFrom 200⟩ : BTree Int RID 0).page.getSize =
        200 := length_entriesFrom 200
    have hboth : (el ++ er).length + 200 ≤ 400 → (el ++ er).length + 200 ≤ 339 := hsize ▸ hroom
    omega

end BPlusTree

end OneBase
