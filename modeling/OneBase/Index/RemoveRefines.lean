import OneBase.Index.Rebalance

/-!
# What `Remove` does to the store

As for `Insert`, one induction on the height covers the descent and the recursion of
`CoalesceOrRedistribute`: what `Remove` does below a page is done when the page is reached
again, or the page is underfull and a call of `CoalesceOrRedistribute` on it remains.

- `Removes`: a key was removed from a subtree and from the store.
- `removeFrom_spec`: `Remove` below a page that is not the root.
-/

namespace OneBase

namespace BPlusTree

open BTree

variable {K V : Type} [LinearOrder K] [Inhabited K] [Inhabited V] {h : Nat}

/-- **The key was removed** from the subtree, in the tree and in the store. -/
structure Removes (s s₁ : BPlusTree K V) (key : K) (t t' : BTree K V h) : Prop where
  shrinks : Shrinks s.leafMaxSize s.internalMaxSize key t t'
  rep : t'.Rep s₁.pages
  touched : Touched s s₁ t.ids

/-- What `Remove` did to the subtree `t`: nothing, or the page of `t` is large enough, or it is
underfull and the call of `CoalesceOrRedistribute` remains. -/
inductive Removed (s : BPlusTree K V) (key : K) (t : BTree K V h) (n : Nat) :
    Option (BPlusTree K V) → Prop where
  | absent {log : GuardLog} : key ∉ t.keys → log.Ok [] → Removed s key t n (some { s with log })
  | done {s₁ : BPlusTree K V} {t' : BTree K V h} :
      Removes s s₁ key t t' → t'.Fits → ¬ Underflows key t → s₁.log.live = [] →
      (s₁.log.NoRelatch ↔ ¬ Borrows key t) → Removed s key t n (some s₁)
  | under {s₁ : BPlusTree K V} {t' : BTree K V h} :
      Removes s s₁ key t t' → t'.page.getSize + 1 = t.page.getSize →
      t.page.getSize = t.page.getMinSize → Underflows key t → ¬ Borrows key t →
      s₁.log.Ok [(t.id, .write)] →
      Removed s key t n ((s₁.coalesceOrRedistribute n t.id).map Prod.snd)

/-- What `Remove` did below the page `id` with the children `cs`: nothing, or the children
are fewer or not. If they are fewer, the page may be underfull. -/
inductive RemovedBelow (s : BPlusTree K V) (key : K) (id p : PageId) (m : Nat)
    (cs : List (K × BTree K V h)) (n : Nat) : Option (BPlusTree K V) → Prop where
  | absent {log : GuardLog} :
      key ∉ (node id m p cs).keys → log.Ok [] → RemovedBelow s key id p m cs n (some { s with log })
  | done {s₁ : BPlusTree K V} {cs' : List (K × BTree K V h)} :
      Removes s s₁ key (node id m p cs) (node id m p cs') → cs'.length = cs.length →
      ¬ Underflows key (node id m p cs) → s₁.log.live = [] →
      (s₁.log.NoRelatch ↔ ¬ Borrows key (node id m p cs)) →
      RemovedBelow s key id p m cs n (some s₁)
  | merged {s₁ : BPlusTree K V} {cs' : List (K × BTree K V h)} :
      Removes s s₁ key (node id m p cs) (node id m p cs') → (∀ c ∈ cs', c.2.parent = id) →
      cs'.length + 1 = cs.length →
      (Underflows key (node id m p cs) ↔ cs.length ≤ (m + 1) / 2) →
      ¬ Borrows key (node id m p cs) → s₁.log.Ok [(id, .write)] →
      RemovedBelow s key id p m cs n
        ((if cs'.length < (m + 1) / 2 then s₁.coalesceOrRedistribute n id
          else some (false, s₁.drop id .write)).map Prod.snd)

section Above

variable {s s₁ s₂ : BPlusTree K V} {key : K} {id p : PageId} {m : Nat}
  {l r : List (K × BTree K V h)} {c : K × BTree K V h} {t₁ : BTree K V h}

/-- The page above a child from which the key was removed. -/
structure ChildRemoved (s s₁ : BPlusTree K V) (key : K) (id p : PageId) (m : Nat)
    (l : List (K × BTree K V h)) (c : K × BTree K V h) (r : List (K × BTree K V h))
    (t₁ : BTree K V h) : Prop where
  rep : (node id m p (l ++ (c.1, t₁) :: r)).Rep s₁.pages
  subperm : (node id m p (l ++ (c.1, t₁) :: r)).ids.Subperm (node id m p (l ++ c :: r)).ids
  touched : Touched s s₁ (node id m p (l ++ c :: r)).ids
  children : ShrunkChildren key id (Cascades key c.2) (l ++ c :: r) (l ++ (c.1, t₁) :: r)

omit [Inhabited V] in
theorem Removes.of_descended {kind : GuardKind} {child : PageId} {t t' : BTree K V h}
    (hrem : Removes (s.descended kind id child) s₁ key t t') : Removes s s₁ key t t' :=
  ⟨hrem.shrinks, hrem.rep, ⟨hrem.touched.frame, hrem.touched.next, hrem.touched.leafMaxSize,
    hrem.touched.internalMaxSize, hrem.touched.root⟩⟩

omit [Inhabited V] in
theorem Sub.childRemoved (hsub : s.Sub (node id m p (l ++ c :: r)))
    (hrem : Removes s s₁ key c.2 t₁) : ChildRemoved s s₁ key id p m l c r t₁ := by
  have hc : c ∈ l ++ c :: r := List.mem_append_right _ List.mem_cons_self
  have hchildren := hrem.shrinks.children hsub.links hsub.ordered.1 hsub.ordered.2
  have hslots : slots (l ++ (c.1, t₁) :: r) = slots (l ++ c :: r) := by
    simp only [slots, List.map_append, List.map_cons, hrem.shrinks.id]
  refine ⟨rep_node.mpr ⟨?_, fun x hx => ?_⟩, ?_, hrem.touched.mono fun q hq => ?_, hchildren⟩
  · rw [hslots, hrem.touched.frame id fun hmem => ?_]
    · exact hsub.page
    · exact hsub.id_not_mem (List.mem_flatMap.mpr ⟨c, hc, hmem⟩)
  · have hcase : x ∈ l ++ r ∨ x = (c.1, t₁) := by
      rcases List.mem_append.mp hx with hx | hx
      · exact .inl (List.mem_append_left _ hx)
      · rcases List.mem_cons.mp hx with hx | hx
        · exact .inr hx
        · exact .inl (List.mem_append_right _ hx)
    rcases hcase with hx | rfl
    · have hmem : x ∈ l ++ c :: r := by
        rcases List.mem_append.mp hx with hx | hx
        · exact List.mem_append_left _ hx
        · exact List.mem_append_right _ (List.mem_cons_of_mem _ hx)
      refine ((rep_node.mp hsub.rep).2 x hmem).congr fun q hq => hrem.touched.frame q ?_
      exact not_mem_ids_of_sibling hsub.children_nodup hx hq
    · exact hrem.rep
  · rw [ids_node, ids_node]
    exact (List.subperm_cons _).mpr hchildren.ids
  · rw [ids_node]
    exact List.mem_cons_of_mem _ (List.mem_flatMap.mpr ⟨c, hc, hq⟩)

omit [Inhabited V] in
/-- **The child is large enough**: the page above it stays as it is. -/
theorem ChildRemoved.done (habove : ChildRemoved s s₁ key id p m l c r t₁)
    (hsub : s.Sub (node id m p (l ++ c :: r))) (hslot : slotOf key (l ++ c :: r) = l.length)
    (hfits : t₁.Fits) (hsized : t₁.Sized s.leafMaxSize s.internalMaxSize)
    (hunder : ¬ Underflows key c.2) :
    Removes s s₁ key (node id m p (l ++ c :: r)) (node id m p (l ++ (c.1, t₁) :: r)) := by
  refine ⟨habove.children.shrinks (fun x hx => ?_) (by simp) hsub.sized.1 ?_, habove.rep,
    habove.touched⟩
  · rcases List.mem_append.mp hx with hx | hx
    · exact hsub.sized.2.2 x (List.mem_append_left _ hx)
    · rcases List.mem_cons.mp hx with rfl | hx
      · exact ⟨hfits, hsized⟩
      · exact hsub.sized.2.2 x (List.mem_append_right _ (List.mem_cons_of_mem _ hx))
  · rw [cascades_node hslot]
    exact or_iff_right fun hnot => hunder hnot.2

omit [Inhabited V] in
/-- **The child was underfull** and two neighbours gave way to `new`. -/
theorem ChildRemoved.rebalanced {l' r' new : List (K × BTree K V h)} {a b : K × BTree K V h}
    (habove : ChildRemoved s s₁ key id p m l c r t₁) (hsub : s.Sub (node id m p (l ++ c :: r)))
    (hslot : slotOf key (l ++ c :: r) = l.length) (hunder : Underflows key c.2)
    (hcs : l ++ (c.1, t₁) :: r = l' ++ a :: b :: r') (hothers : ∀ x ∈ l' ++ r', x ∈ l ++ c :: r)
    (hne : new ≠ []) (hreb : Rebalanced s₁ s₂ id p m l' a b r' new) :
    Removes s s₂ key (node id m p (l ++ c :: r)) (node id m p (l' ++ (new ++ r'))) ∧
      ∀ c ∈ l' ++ (new ++ r'), c.2.parent = id := by
  have hchildren := habove.children
  have hsubperm := habove.subperm
  rw [hcs] at hchildren hsubperm
  have hleaf : h = 0 → ¬ Cascades key c.2 := by
    rintro rfl hcascades
    exact hcascades
  have hcascades : Cascades key (node id m p (l ++ c :: r)) ↔ 0 < h := by
    rw [cascades_node hslot]
    constructor
    · rintro (⟨hpos, -⟩ | hcascades)
      · exact hpos
      · exact Nat.pos_of_ne_zero fun hzero => hleaf hzero hcascades
    · exact fun hpos => .inl ⟨hpos, hunder⟩
  have hshrunk := hreb.shrunk hleaf hchildren
  refine ⟨⟨hshrunk.shrinks (fun x hx => ?_) (by simp [hne]) hsub.sized.1 hcascades, hreb.rep,
    habove.touched.trans (hreb.touched.mono fun q hq => hsubperm.subset hq)⟩, hshrunk.parent⟩
  rcases List.mem_append.mp hx with hx | hx
  · exact hsub.sized.2.2 x (hothers x (List.mem_append_left _ hx))
  · rcases List.mem_append.mp hx with hx | hx
    · have hsized := hreb.sized x hx
      rwa [habove.touched.leafMaxSize, habove.touched.internalMaxSize] at hsized
    · exact hsub.sized.2.2 x (hothers x (List.mem_append_right _ hx))

omit [Inhabited V] in
theorem ChildRemoved.window {l' r' : List (K × BTree K V h)} {a b : K × BTree K V h}
    (habove : ChildRemoved s s₁ key id p m l c r t₁) (hsub : s.Sub (node id m p (l ++ c :: r)))
    (hshrinks : Shrinks s.leafMaxSize s.internalMaxSize key c.2 t₁) (hid : id ≠ invalidPageId)
    (hcs : l ++ (c.1, t₁) :: r = l' ++ a :: b :: r') : Window s₁ id p m l' a b r' := by
  have hall : ∀ x ∈ l' ++ a :: b :: r', x.2.parent = id ∧
      x.2.Sized s₁.leafMaxSize s₁.internalMaxSize := by
    rw [← hcs, habove.touched.leafMaxSize, habove.touched.internalMaxSize]
    have hold : ∀ x ∈ l ++ c :: r, x.2.parent = id ∧ x.2.Sized s.leafMaxSize s.internalMaxSize :=
      fun x hx => ⟨(hsub.links x hx).1, (hsub.sized.2.2 x hx).2⟩
    intro x hx
    rcases List.mem_append.mp hx with hx | hx
    · exact hold x (List.mem_append_left _ hx)
    · rcases List.mem_cons.mp hx with rfl | hx
      · exact ⟨hshrinks.parent.trans (hold c (by simp)).1, hshrinks.sized⟩
      · exact hold x (List.mem_append_right _ (List.mem_cons_of_mem _ hx))
  have hnodup : (node id m p (l ++ (c.1, t₁) :: r)).ids.Nodup := by
    obtain ⟨ids, hperm, hsublist⟩ := habove.subperm
    exact hperm.nodup_iff.mp (hsublist.nodup hsub.nodup)
  have hrep := habove.rep
  rw [hcs] at hrep hnodup
  obtain ⟨hpa, hsa⟩ := hall a (by simp)
  obtain ⟨hpb, hsb⟩ := hall b (by simp)
  exact ⟨hrep, hnodup, hid, hpa, hpb, hsa, hsb⟩

/-- **The step below the page**, seen from the page. -/
theorem ChildRemoved.stepped {l' r' : List (K × BTree K V h)} {a b sibling : K × BTree K V h}
    {merges : Prop} {n : Nat} {run : Option (Bool × BPlusTree K V)}
    (habove : ChildRemoved s s₁ key id p m l c r t₁) (hsub : s.Sub (node id m p (l ++ c :: r)))
    (hslot : slotOf key (l ++ c :: r) = l.length)
    (hsibling : (l ++ c :: r)[siblingIndex l.length]? = some sibling)
    (hunder : Underflows key c.2) (hborrows : ¬ Borrows key c.2)
    (hcs : l ++ (c.1, t₁) :: r = l' ++ a :: b :: r') (hothers : ∀ x ∈ l' ++ r', x ∈ l ++ c :: r)
    (hmerges : merges ↔ c.2.Mergeable sibling.2)
    (hstep : Stepped s₁ id p m l' a b r' n merges run) :
    RemovedBelow s key id p m (l ++ c :: r) n (run.map Prod.snd) := by
  have hlen : (l ++ c :: r).length = l'.length + r'.length + 2 := by
    have hlen := congrArg List.length hcs
    simp only [List.length_append, List.length_cons] at hlen ⊢
    omega
  cases hstep with
  | @merge s₂ t hm hreb hlog =>
    rw [hmerges] at hm
    have hlen' : (l' ++ ([(a.1, t)] ++ r')).length = l'.length + r'.length + 1 := by
      simp only [List.length_append, List.length_cons, List.length_nil]
      omega
    obtain ⟨hrem, hparent⟩ :=
      habove.rebalanced hsub hslot hunder hcs hothers (List.cons_ne_nil _ _) hreb
    rw [← hlen']
    refine .merged hrem hparent (by omega) ?_ ?_ hlog
    · rw [underflows_node hslot hsibling]
      exact and_iff_right ⟨hunder, hm⟩
    · rw [borrows_node hslot hsibling]
      rintro (hb | ⟨-, hnot⟩)
      · exact hborrows hb
      · exact hnot hm
  | @borrow s₂ t t' k hm hreb hlive hrelatch =>
    rw [hmerges] at hm
    obtain ⟨hrem, -⟩ := habove.rebalanced hsub hslot hunder hcs hothers (List.cons_ne_nil _ _) hreb
    refine .done hrem ?_ ?_ hlive ?_
    · simp only [List.length_append, List.length_cons, List.length_nil] at hlen ⊢
      omega
    · rw [underflows_node hslot hsibling]
      exact fun hboth => hm hboth.1.2
    · refine iff_of_false hrelatch (not_not_intro ?_)
      rw [borrows_node hslot hsibling]
      exact .inr ⟨hunder, hm⟩

/-- **What `Remove` did to the child**, seen from the page above it. -/
theorem Sub.removedBelow {cs : List (K × BTree K V h)} {n : Nat} {run : Option (BPlusTree K V)}
    (hsub : s.Sub (node id m p cs)) (hlen : 2 ≤ cs.length) (hlm : 2 ≤ s.leafMaxSize)
    (him : 3 ≤ s.internalMaxSize) (hdown : Sub.Descent s id p m cs .write key l c r)
    (hchild : Removed (s.descended .write id c.2.id) key c.2 (n + 1) run) :
    RemovedBelow s key id p m cs n run := by
  have hslot : slotOf key cs = l.length := hdown.index
  have hmem := hdown.mem_keys
  have hid : id ≠ invalidPageId := hdown.parent ▸ hdown.parent_ne
  obtain ⟨rfl, -, -⟩ := hdown.route
  obtain ⟨sibling, hsibling⟩ := exists_sibling hlen
  cases hchild with
  | absent hkey hlog => exact .absent (fun hk => hkey (hmem.mp hk)) hlog
  | @done s₁ t₁ hrem hfits hunder hlive hrelatch =>
    have hrem := hrem.of_descended
    have habove := hsub.childRemoved hrem
    refine .done (habove.done hsub hslot hfits hrem.shrinks.sized hunder) (by simp) ?_ hlive ?_
    · rw [underflows_node hslot hsibling]
      exact fun hboth => hunder hboth.1.1
    · rw [hrelatch, borrows_node hslot hsibling]
      exact not_congr (or_iff_left fun hboth => hunder hboth.1).symm
  | @under s₁ t₁ hrem hsize hmin hunder hborrows hlog =>
    have hrem := hrem.of_descended
    have habove := hsub.childRemoved hrem
    have hsized : c.2.Sized s.leafMaxSize s.internalMaxSize := (hsub.sized.2.2 c (by simp)).2
    obtain ⟨hmaxs, hmins⟩ := hrem.shrinks.sized.bounds_eq hsized
    have hmerges : ∀ x : BTree K V h, t₁.page.getSize + x.page.getSize ≤ t₁.page.getMaxSize ↔
        c.2.Mergeable x := by
      intro x
      rw [Mergeable, hmaxs, ← hsize, Nat.add_sub_cancel]
    have hunder' : t₁.page.getSize + 1 = t₁.page.getMinSize := by
      rw [hmins, hsize, hmin]
    have hlm' : 2 ≤ s₁.leafMaxSize := hrem.touched.leafMaxSize ▸ hlm
    have him' : 3 ≤ s₁.internalMaxSize := hrem.touched.internalMaxSize ▸ him
    rw [← hrem.shrinks.id] at hlog ⊢
    rcases List.eq_nil_or_concat l with rfl | ⟨l', a, rfl⟩
    · -- the first child is paired with the second
      cases r with
      | nil => exact absurd hlen (by simp)
      | cons b r =>
        obtain rfl : b = sibling := by simpa [siblingIndex] using hsibling
        have hfits : b.2.Fits := (hsub.sized.2.2 b (by simp)).1
        have hw : Window s₁ id p m [] (c.1, t₁) b r :=
          habove.window hsub hrem.shrinks hid rfl
        refine habove.stepped hsub hslot hsibling hunder hborrows rfl (fun x hx => ?_)
          (hmerges b.2) (hw.step_right hlm' (fun _ => him') hunder' hfits hlog n)
        simp only [List.nil_append] at hx
        simp [hx]
    · -- another child is paired with the one to its left
      have hcs : l'.concat a ++ (c.1, t₁) :: r = l' ++ a :: (c.1, t₁) :: r := by simp
      have hi : siblingIndex (l'.concat a).length = l'.length := by simp [siblingIndex]
      have ha : (l'.concat a ++ c :: r)[l'.length]? = some a := by simp
      obtain rfl : a = sibling := by
        rw [hi, ha] at hsibling
        exact Option.some.inj hsibling
      have hfits : a.2.Fits := (hsub.sized.2.2 a (by simp)).1
      have hw := habove.window hsub hrem.shrinks hid hcs
      refine habove.stepped hsub hslot hsibling hunder hborrows hcs (fun x hx => ?_)
        (hmerges a.2) (hw.step_left hlm' (fun _ => him') hunder' hfits hlog n)
      rcases List.mem_append.mp hx with hx | hx
      · simp [hx]
      · simp [hx]

end Above

/-! ## `Remove` below a page -/

omit [Inhabited V] in
/-- What is left when the entry is taken out of a leaf. -/
theorem removes_leaf {s : BPlusTree K V} (id : PageId) {page : LeafPage K V} {key : K} {v : V}
    {l r : List (K × V)} (hmax : page.maxSize = s.leafMaxSize) (hordered : Increasing page.array)
    (harray : page.array = l ++ (key, v) :: r) (log : GuardLog) :
    Removes s { s.write id (.leaf { page with array := l ++ r }) with log } key (leaf id page)
      (leaf id { page with array := l ++ r }) := by
  refine ⟨shrinks_leaf hmax hordered harray, rep_leaf (Function.update_self ..), ?_⟩
  refine ⟨fun q hq => Function.update_of_ne ?_ _ _, rfl, rfl, rfl, rfl⟩
  rintro rfl
  exact hq List.mem_cons_self

theorem removeFromLeaf_spec {s : BPlusTree K V} {id : PageId} {page : LeafPage K V}
    (hsub : s.Sub (leaf id page)) (hfits : (leaf id page).Fits) (hlog : s.log.Ok [(id, .write)])
    (key : K) (n : Nat) : Removed s key (leaf id page) n (s.removeFromLeaf n id key) := by
  have hpage : s.pages id = some (.leaf page) := hsub.rep.page
  have hmax : page.maxSize = s.leafMaxSize := hsub.sized
  have hkeys : (leaf id page).keys = page.array.map Prod.fst := by rw [keys, entries_leaf]
  obtain ⟨hmin, hle⟩ := fits_leaf.mp hfits
  rcases LeafPage.removeAndDeleteRecord_cases hsub.ordered key with
    ⟨hmem, hremove⟩ | ⟨l, v, r, harray, hremove⟩
  · rw [removeFromLeaf_absent hpage hremove]
    exact .absent (hkeys ▸ hmem) hlog.release_head
  · have hlen : page.array.length = (l ++ r).length + 1 := by
      rw [harray]
      simp only [List.length_append, List.length_cons]
      omega
    have hmem : key ∈ page.array.map Prod.fst := by
      rw [harray]
      simp
    have hunder : Underflows key (leaf id page) ↔ (l ++ r).length < page.maxSize / 2 := by
      constructor
      · intro hunder
        have := hunder.2
        omega
      · intro hlt
        refine ⟨hmem, ?_⟩
        omega
    have hrem := removes_leaf id hmax hsub.ordered harray
    rw [removeFromLeaf_present hpage harray hremove]
    by_cases hlt : (l ++ r).length < page.maxSize / 2
    · rw [if_pos hlt]
      refine .under (hrem s.log) hlen.symm ?_ (hunder.mpr hlt) (fun hfalse => hfalse) hlog
      show page.array.length = page.maxSize / 2
      omega
    · rw [if_neg hlt]
      have hlog' : GuardLog.Ok (.release id .write :: s.log) [] := hlog.release_head
      refine .done (hrem _) (fits_leaf.mpr ⟨?_, ?_⟩) (fun h => hlt (hunder.mp h)) hlog'.live
        (iff_of_true hlog'.noRelatch fun hfalse => hfalse)
      · show page.maxSize / 2 ≤ (l ++ r).length
        omega
      · show (l ++ r).length ≤ page.maxSize
        omega

/-- `Remove` from a page that is fetched: the descent, and what follows at the leaf. -/
def removeFrom (s : BPlusTree K V) (m n : Nat) (p : PageId) (key : K) : Option (BPlusTree K V) :=
  (s.findLeaf .write (·.lookup key) m p).bind fun x => x.2.removeFromLeaf n x.1 key

theorem removeFrom_leaf {s : BPlusTree K V} {id : PageId} {page : LeafPage K V} {key : K}
    (hpage : s.pages id = some (.leaf page)) (m n : Nat) :
    s.removeFrom (m + 1) n id key = s.removeFromLeaf n id key := by
  rw [removeFrom, findLeaf_leaf hpage]
  rfl

/-- The descent goes to the child that the key is routed to. -/
theorem removeFrom_node {s : BPlusTree K V} {id p : PageId} {im : Nat}
    {cs : List (K × BTree K V h)} {c : K × BTree K V h} {key : K}
    (hpage : s.pages id = some (.internal ⟨im, p, slots cs⟩))
    (hlookup : (⟨im, p, slots cs⟩ : InternalPage K).lookup key = c.2.id) (m n : Nat) :
    s.removeFrom (m + 1) n id key = (s.descended .write id c.2.id).removeFrom m n c.2.id key := by
  rw [removeFrom, findLeaf_node hpage, hlookup]
  rfl

/-- A page that is not the root, after what happened below it. -/
theorem RemovedBelow.removed {s : BPlusTree K V} {key : K} {id p : PageId} {m n : Nat}
    {cs : List (K × BTree K V h)} {run : Option (BPlusTree K V)} (hfits : (node id m p cs).Fits)
    (hbelow : RemovedBelow s key id p m cs n run) : Removed s key (node id m p cs) n run := by
  obtain ⟨hmin, hmax⟩ := fits_node.mp hfits
  cases hbelow with
  | absent hkey hlog => exact .absent hkey hlog
  | @done s₁ cs' hrem hlen hunder hlive hrelatch =>
    exact .done hrem (fits_node.mpr (by rw [hlen]; exact ⟨hmin, hmax⟩)) hunder hlive hrelatch
  | @merged s₁ cs' hrem hparent hlen hunder hborrows hlog =>
    by_cases hlt : cs'.length < (m + 1) / 2
    · rw [if_pos hlt]
      refine .under hrem ?_ ?_ (hunder.mpr (by omega)) hborrows hlog
      · rw [getSize_node, getSize_node, hlen]
      · rw [getSize_node]
        show cs.length = (m + 1) / 2
        omega
    · rw [if_neg hlt]
      have hlog' : GuardLog.Ok (.release id .write :: s₁.log) [] := hlog.release_head
      refine .done ⟨hrem.shrinks, hrem.rep, hrem.touched.setLog _⟩ (fits_node.mpr ?_)
        (fun h => ?_) hlog'.live (iff_of_true hlog'.noRelatch hborrows)
      · omega
      · have := hunder.mp h
        omega

/-- **`Remove` below a page that is not the root**, by induction on the height. -/
theorem removeFrom_spec (key : K) : ∀ {h : Nat} {t : BTree K V h} {s : BPlusTree K V},
    s.Sub t → t.Fits → 2 ≤ s.leafMaxSize → 3 ≤ s.internalMaxSize → s.log.Ok [(t.id, .write)] →
    ∀ m n : Nat, Removed s key t n (s.removeFrom (m + h + 1) (n + h) t.id key)
  | 0, t, s, hsub, hfits, hlm, him, hlog, m, n => by
    obtain ⟨id, page, rfl⟩ := t.exists_leaf
    rw [removeFrom_leaf hsub.rep.page]
    exact removeFromLeaf_spec hsub hfits hlog key n
  | h + 1, t, s, hsub, hfits, hlm, him, hlog, m, n => by
    obtain ⟨id, im, p, cs, rfl⟩ := t.exists_node
    obtain ⟨l, c, r, hdown⟩ := hsub.exists_descent hlog key
    have hlen : 2 ≤ cs.length := by
      have hmin := (fits_node.mp hfits).1
      rw [show im = s.internalMaxSize from hsub.sized.1] at hmin
      omega
    have hchild := removeFrom_spec key hdown.child hdown.fits hlm him hdown.log m (n + 1)
    have hrun : s.removeFrom (m + (h + 1) + 1) (n + (h + 1)) id key =
        (s.descended .write id c.2.id).removeFrom (m + h + 1) (n + 1 + h) c.2.id key := by
      rw [removeFrom_node hsub.page hdown.lookup, show n + (h + 1) = n + 1 + h by omega]
      rfl
    rw [← hrun] at hchild
    exact (hsub.removedBelow hlen hlm him hdown hchild).removed hfits

/-! ## `Remove` -/

/-- **What `Remove` left of the tree.** Links, order and chain are right if no internal page
but the root became underfull. -/
structure RootRemoves (s s' : BPlusTree K V) (key : K) (t : BTree K V h) {h' : Nat}
    (t' : BTree K V h') : Prop where
  root : s'.rootPageId = t'.id
  rep : t'.Rep s'.pages
  next : s'.nextPageId = s.nextPageId
  leafMaxSize : s'.leafMaxSize = s.leafMaxSize
  internalMaxSize : s'.internalMaxSize = s.internalMaxSize
  parent : t'.parent = invalidPageId
  sized : t'.Sized s.leafMaxSize s.internalMaxSize
  rootMin : t'.RootMin
  rootMax : t.page.getSize ≤ t.page.getMaxSize → t'.page.getSize ≤ t'.page.getMaxSize
  entries : ∃ v, t.entries.Perm ((key, v) :: t'.entries)
  ids : t'.ids.Subperm t.ids
  links : t'.Links ↔ ¬ Cascades key t
  ordered : ¬ Cascades key t → t'.Ordered
  chained : ¬ Cascades key t → Chained t'.chain invalidPageId

/-- What `Remove` did to the tree: nothing, or the tree is empty now, or the key is gone. -/
inductive RemovedRoot (s : BPlusTree K V) (key : K) (t : BTree K V h) :
    Option (BPlusTree K V) → Prop where
  | absent {log : GuardLog} : key ∉ t.keys → log.Ok [] → RemovedRoot s key t (some { s with log })
  | emptied {s' : BPlusTree K V} {v : V} :
      t.entries = [(key, v)] → s'.rootPageId = invalidPageId → s'.nextPageId = s.nextPageId →
      s'.leafMaxSize = s.leafMaxSize → s'.internalMaxSize = s.internalMaxSize →
      ¬ Cascades key t → ¬ Borrows key t → s'.log.Ok [] → RemovedRoot s key t (some s')
  | removed {s' : BPlusTree K V} {h' : Nat} {t' : BTree K V h'} :
      RootRemoves s s' key t t' → s'.log.live = [] → (s'.log.NoRelatch ↔ ¬ Borrows key t) →
      RemovedRoot s key t (some s')

section Root

variable {s s₁ : BPlusTree K V} {key : K}

omit [Inhabited V] in
/-- The root stays. -/
theorem Removes.root {t t' : BTree K V h} (hrem : Removes s s₁ key t t') (hwf : s.WellFormed t)
    (hmin : t'.RootMin)
    (hmax : t'.page.getSize ≤ t.page.getSize) (log : GuardLog) :
    RootRemoves s { s₁ with log } key t t' where
  root := hrem.touched.root.trans (hwf.root.trans hrem.shrinks.id.symm)
  rep := hrem.rep
  next := hrem.touched.next
  leafMaxSize := hrem.touched.leafMaxSize
  internalMaxSize := hrem.touched.internalMaxSize
  parent := hrem.shrinks.parent.trans hwf.parent
  sized := hrem.shrinks.sized
  rootMin := hmin
  rootMax := fun hle => by
    rw [(hrem.shrinks.sized.bounds_eq hwf.sized).1]
    exact Nat.le_trans hmax hle
  entries := hrem.shrinks.entries
  ids := hrem.shrinks.ids
  links := hrem.shrinks.links
  ordered := hrem.shrinks.ordered
  chained := fun hnot => hrem.shrinks.chain hnot _ hwf.chained

/-- **The root is a leaf.** -/
theorem removeFromLeaf_root {id : PageId} {page : LeafPage K V} (hwf : s.WellFormed (leaf id page))
    (hlm : 2 ≤ s.leafMaxSize) (hlog : s.log.Ok [(id, .write)]) (key : K) (n : Nat) :
    RemovedRoot s key (leaf id page) (s.removeFromLeaf (n + 1) id key) := by
  have hpage : s.pages id = some (.leaf page) := hwf.rep.page
  have hmax : page.maxSize = s.leafMaxSize := hwf.sized
  have hkeys : (leaf id page).keys = page.array.map Prod.fst := by rw [keys, entries_leaf]
  have hlog' : GuardLog.Ok (.release id .write :: s.log) [] := hlog.release_head
  rcases LeafPage.removeAndDeleteRecord_cases hwf.ordered key with
    ⟨hmem, hremove⟩ | ⟨l, v, r, harray, hremove⟩
  · rw [removeFromLeaf_absent hpage hremove]
    exact .absent (hkeys ▸ hmem) hlog'
  · have hrem : Removes s (s.write id (.leaf { page with array := l ++ r })) key (leaf id page)
        (leaf id { page with array := l ++ r }) :=
      removes_leaf id hmax hwf.ordered harray s.log
    have hlen : page.array.length = (l ++ r).length + 1 := by
      rw [harray]
      simp only [List.length_append, List.length_cons]
      omega
    have hstays : l ++ r ≠ [] → RemovedRoot s key (leaf id page)
        (some ((s.write id (.leaf { page with array := l ++ r })).drop id .write)) := by
      intro hne
      have hpos := List.length_pos_iff.mpr hne
      refine .removed (hrem.root hwf hpos ?_ _) hlog'.live
        (iff_of_true hlog'.noRelatch fun hfalse => hfalse)
      show (l ++ r).length ≤ page.array.length
      omega
    rw [removeFromLeaf_present hpage harray hremove]
    by_cases hlt : (l ++ r).length < page.maxSize / 2
    · have hpage' : (s.write id (.leaf { page with array := l ++ r })).pages id =
          some (.leaf { page with array := l ++ r }) := Function.update_self ..
      rw [if_pos hlt, coalesceOrRedistribute_root_leaf hpage' hwf.parent]
      by_cases hnil : l ++ r = []
      · rw [if_pos hnil]
        obtain ⟨rfl, rfl⟩ := List.append_eq_nil_iff.mp hnil
        refine .emptied (entries_leaf.trans harray) rfl rfl rfl rfl (fun hfalse => hfalse)
          (fun hfalse => hfalse) hlog'
      · rw [if_neg hnil]
        exact hstays hnil
    · rw [if_neg hlt]
      refine hstays ?_
      intro hnil
      rw [hnil, List.length_nil] at hlt
      omega

omit [Inhabited V] in
/-- **The root has one child left**, which takes its place. -/
theorem Removes.collapse {id : PageId} {m : Nat} {cs : List (K × BTree K V h)}
    {c : K × BTree K V h} (hrem : Removes s s₁ key (node id m invalidPageId cs)
      (node id m invalidPageId [c])) (hwf : s.WellFormed (node id m invalidPageId cs))
    (hparent : c.2.parent = id) (hlm : 2 ≤ s.leafMaxSize) (him : 3 ≤ s.internalMaxSize)
    (log : GuardLog) :
    RootRemoves s
      { s₁ with
        rootPageId := c.2.id
        pages := Function.update (Function.update s₁.pages id
            (some (.internal ⟨m, invalidPageId, []⟩))) c.2.id
          ((Function.update s₁.pages id (some (.internal ⟨m, invalidPageId, []⟩)) c.2.id).map
            (TreePage.setParentPageId invalidPageId))
        log }
      key (node id m invalidPageId cs) (c.2.setParent invalidPageId) := by
  have hnodup : (node id m invalidPageId [c]).ids.Nodup := by
    obtain ⟨ids, hperm, hsublist⟩ := hrem.shrinks.ids
    exact hperm.nodup_iff.mp (hsublist.nodup hwf.nodup)
  rw [ids_node, List.flatMap_singleton, List.nodup_cons] at hnodup
  obtain ⟨hid, hnodup⟩ := hnodup
  obtain ⟨hm, -, hchild⟩ := sized_node.mp hrem.shrinks.sized
  obtain ⟨hfits, hsized⟩ := hchild c List.mem_cons_self
  have hlinks := hrem.shrinks.links
  rw [links_node] at hlinks
  have hne : c.2.id ≠ id := fun heq => hid (heq ▸ id_mem_ids c.2)
  refine ⟨id_setParent.symm, ?_, hrem.touched.next, hrem.touched.leafMaxSize,
    hrem.touched.internalMaxSize, parent_setParent, sized_setParent.mpr hsized, ?_,
    fun _ => ?_, ?_, ?_,
    ?_, fun hnot => ?_, fun hnot => ?_⟩
  · refine ((rep_node.mp hrem.rep).2 c List.mem_cons_self).setParent hnodup ?_ fun q hq hne => ?_
    · refine (Function.update_self ..).trans ?_
      rw [Function.update_of_ne hne]
    · refine (Function.update_of_ne hne _ _).trans (Function.update_of_ne ?_ _ _)
      rintro rfl
      exact hid hq
  · -- a page that was not underfull below the root is large enough to be the root
    cases h with
    | zero =>
      obtain ⟨k, t⟩ := c
      obtain ⟨i, page, rfl⟩ := t.exists_leaf
      have hmax : page.maxSize = s.leafMaxSize := hsized
      have hmin := (fits_leaf.mp hfits).1
      show 1 ≤ page.array.length
      omega
    | succ h =>
      obtain ⟨k, t⟩ := c
      obtain ⟨i, m', p', cs', rfl⟩ := t.exists_node
      have hmax : m' = s.internalMaxSize := (sized_node.mp hsized).1
      have hmin := (fits_node.mp hfits).1
      refine rootMin_node.mpr ?_
      omega
  · have hfits' : (c.2.setParent invalidPageId).Fits := fits_setParent.mpr hfits
    exact hfits'.2
  · obtain ⟨v, hperm⟩ := hrem.shrinks.entries
    refine ⟨v, ?_⟩
    rwa [entries_setParent,
      ← @List.flatMap_singleton _ _ (fun c : K × BTree K V h => c.2.entries) c,
      ← @entries_node K V h id invalidPageId m [c]]
  · rw [ids_setParent]
    refine List.Subperm.trans ?_ hrem.shrinks.ids
    rw [ids_node, List.flatMap_singleton]
    exact List.Subperm.cons_self
  · rw [links_setParent, ← hlinks]
    simp only [List.mem_singleton, forall_eq]
    exact (and_iff_right hparent).symm
  · exact ordered_setParent.mpr ((hrem.shrinks.ordered hnot).2 c List.mem_cons_self)
  · have hchain := hrem.shrinks.chain hnot _ hwf.chained
    rw [chain_node, List.flatMap_singleton] at hchain
    rwa [chain_setParent]

/-- A root that is an internal page, after what happened below it. -/
theorem RemovedBelow.root {id : PageId} {m n : Nat} {cs : List (K × BTree K V h)}
    {run : Option (BPlusTree K V)} (hwf : s.WellFormed (node id m invalidPageId cs))
    (hlen : 2 ≤ cs.length) (hlm : 2 ≤ s.leafMaxSize) (him : 3 ≤ s.internalMaxSize)
    (hbelow : RemovedBelow s key id invalidPageId m cs (n + 1) run) :
    RemovedRoot s key (node id m invalidPageId cs) run := by
  have hsize : ∀ cs : List (K × BTree K V h),
      (node id m invalidPageId cs).page.getSize = cs.length := fun cs => length_slots
  have hstays : ∀ {s₁ : BPlusTree K V} {cs' : List (K × BTree K V h)} (log : GuardLog),
      Removes s s₁ key (node id m invalidPageId cs) (node id m invalidPageId cs') →
      2 ≤ cs'.length → cs'.length ≤ cs.length →
      RootRemoves s { s₁ with log } key (node id m invalidPageId cs)
        (node id m invalidPageId cs') := by
    intro s₁ cs' log hrem hmin hle
    refine hrem.root hwf ?_ ?_ log
    · exact rootMin_node.mpr hmin
    · rw [hsize, hsize]
      exact hle
  cases hbelow with
  | absent hkey hlog => exact .absent hkey hlog
  | @done s₁ cs' hrem hlen' hunder hlive hrelatch =>
    exact .removed (hstays s₁.log hrem (by omega) (by omega)) hlive hrelatch
  | @merged s₁ cs' hrem hparent hlen' hunder hborrows hlog =>
    have hlog' : GuardLog.Ok (.release id .write :: s₁.log) [] := hlog.release_head
    by_cases htwo : 2 ≤ cs'.length
    · -- the root has two children, whether it is checked or not
      have hrun : (if cs'.length < (m + 1) / 2 then s₁.coalesceOrRedistribute (n + 1) id
          else some (false, s₁.drop id .write)) = some (false, s₁.drop id .write) := by
        by_cases hlt : cs'.length < (m + 1) / 2
        · rw [if_pos hlt, coalesceOrRedistribute_root_stays (rep_node.mp hrem.rep).1 htwo]
        · rw [if_neg hlt]
      rw [hrun]
      exact .removed (hstays _ hrem htwo (by omega)) hlog'.live
        (iff_of_true hlog'.noRelatch hborrows)
    · obtain ⟨c, rfl⟩ : ∃ c, cs' = [c] := List.length_eq_one_iff.mp (by omega)
      have hm : m = s.internalMaxSize := hwf.sized.1
      have hlt : [c].length < (m + 1) / 2 := by
        rw [List.length_singleton]
        omega
      have hne : c.2.id ≠ id := by
        intro heq
        have hnodup : (node id m invalidPageId [c]).ids.Nodup := by
          obtain ⟨ids, hperm, hsublist⟩ := hrem.shrinks.ids
          exact hperm.nodup_iff.mp (hsublist.nodup hwf.nodup)
        rw [ids_node, List.flatMap_singleton, List.nodup_cons] at hnodup
        exact hnodup.1 (heq ▸ id_mem_ids c.2)
      have hlog₁ : GuardLog.Ok (.acquire c.2.id .write :: s₁.log)
          [(c.2.id, .write), (id, .write)] :=
        hlog.acquire fun g hg => by
          rw [List.mem_singleton.mp hg]
          exact hne.symm
      rw [if_pos hlt, coalesceOrRedistribute_root_single (rep_node.mp hrem.rep).1]
      refine .removed (hrem.collapse hwf (hparent c List.mem_cons_self) hlm him _)
        hlog₁.release_head.release_head.live
        (iff_of_true hlog₁.release_head.release_head.noRelatch hborrows)

/-- `Remove` from the root, which is fetched. -/
theorem removeFrom_root {t : BTree K V h} (hwf : s.WellFormed t)
    (hmin : t.RootMin) (hlm : 2 ≤ s.leafMaxSize)
    (him : 3 ≤ s.internalMaxSize) (hlog : s.log.Ok [(t.id, .write)]) (key : K) (d n : Nat) :
    RemovedRoot s key t (s.removeFrom (d + h + 1) (n + h + 1) t.id key) := by
  cases h with
  | zero =>
    obtain ⟨id, page, rfl⟩ := t.exists_leaf
    rw [removeFrom_leaf hwf.rep.page]
    exact removeFromLeaf_root hwf hlm hlog key n
  | succ h =>
    obtain ⟨id, m, p, cs, rfl⟩ := t.exists_node
    obtain rfl : p = invalidPageId := hwf.parent
    have hlen : 2 ≤ cs.length := rootMin_node.mp hmin
    obtain ⟨l, c, r, hdown⟩ := hwf.sub.exists_descent hlog key
    have hchild := removeFrom_spec key hdown.child hdown.fits hlm him hdown.log d (n + 1 + 1)
    have hrun : s.removeFrom (d + (h + 1) + 1) (n + (h + 1) + 1) id key =
        (s.descended .write id c.2.id).removeFrom (d + h + 1) (n + 1 + 1 + h) c.2.id key := by
      rw [removeFrom_node hwf.sub.page hdown.lookup, show n + (h + 1) + 1 = n + 1 + 1 + h by omega]
      rfl
    rw [← hrun] at hchild
    exact (hwf.sub.removedBelow hlen hlm him hdown hchild).root hwf hlen hlm him

/-- **`Remove` from a tree that is not empty.** -/
theorem remove_root {t : BTree K V h} (hwf : s.WellFormed t) (hmin : s.RootMin)
    (hlm : 2 ≤ s.leafMaxSize) (him : 3 ≤ s.internalMaxSize) (hlog : s.log.Ok []) (key : K)
    {fuel : Nat} (hfuel : h + 1 ≤ fuel) : RemovedRoot s key t (s.remove fuel key) := by
  have hrun : s.remove fuel key = (s.fetchPage t.id .write).removeFrom fuel fuel t.id key := by
    rw [remove, hwf.not_isEmpty, ← hwf.root]
    rfl
  have hmin' := (rootMin_iff hwf.root (hwf.root ▸ hwf.root_ne) hwf.rep).mp hmin
  have hspec := removeFrom_root (hwf.setLog (.acquire t.id .write :: s.log)) hmin' hlm him
    (hlog.acquire fun _ hg => absurd hg List.not_mem_nil) key (fuel - h - 1) (fuel - h - 1)
  rw [show fuel - h - 1 + h + 1 = fuel by omega] at hspec
  rw [hrun, fetchPage]
  -- the fetch of the root changes the log only
  generalize ({ s with log := .acquire t.id .write :: s.log } : BPlusTree K V).removeFrom fuel fuel
    t.id key = run at hspec ⊢
  cases hspec with
  | absent hkey hlog => exact .absent hkey hlog
  | emptied hentries hroot hnext hleaf hinternal hcascades hborrows hlog =>
    exact .emptied hentries hroot hnext hleaf hinternal hcascades hborrows hlog
  | removed hrem hlive hrelatch =>
    exact .removed ⟨hrem.root, hrem.rep, hrem.next, hrem.leafMaxSize, hrem.internalMaxSize,
      hrem.parent, hrem.sized, hrem.rootMin, hrem.rootMax, hrem.entries, hrem.ids, hrem.links,
      hrem.ordered, hrem.chained⟩ hlive hrelatch

end Root

end BPlusTree

end OneBase
