import Mathlib.Data.List.Perm.Subperm
import OneBase.Index.InsertShape

/-!
# What `Remove` does to the tree

A child that becomes underfull is merged with a neighbour, or borrows from it. The leaves
come out of this as they should. Between internal pages the children that move get a wrong
parent, and a child that is borrowed gets a wrong place.

- `Underflows`, `Borrows`, `Cascades`: what `Remove` will do, from the tree before it.
- `Shrinks`: a key was removed from a subtree. Sizes and entries are right; links, order
  and chain are right if no internal page in it but its root became underfull.
-/

namespace OneBase

namespace BTree

variable {K V : Type} [LinearOrder K] {h : Nat}

/-! ## What `Remove` will do -/

/-- The slot of the neighbour that the child in slot `i` is paired with. -/
def siblingIndex (i : Nat) : Nat := if 0 < i then i - 1 else i + 1

omit [LinearOrder K] in
/-- A child that is not the only one has a neighbour. -/
theorem exists_sibling {l r : List (K × BTree K V h)} {c : K × BTree K V h}
    (hlen : 2 ≤ (l ++ c :: r).length) :
    ∃ sibling, (l ++ c :: r)[siblingIndex l.length]? = some sibling := by
  have hlt : siblingIndex l.length < (l ++ c :: r).length := by
    rw [siblingIndex]
    simp only [List.length_append, List.length_cons] at hlen ⊢
    split <;> omega
  exact ⟨_, List.getElem?_eq_getElem hlt⟩

/-- The child has room for the entries of its neighbour once it has lost one. -/
def Mergeable (t sibling : BTree K V h) : Prop :=
  t.page.getSize - 1 + sibling.page.getSize ≤ t.page.getMaxSize

instance (t sibling : BTree K V h) : Decidable (t.Mergeable sibling) :=
  inferInstanceAs (Decidable (_ ≤ _))

omit [LinearOrder K] in
/-- Pages of one height have the same bounds. -/
theorem Sized.bounds_eq {lm im : Nat} {t t' : BTree K V h} (ht : t.Sized lm im)
    (ht' : t'.Sized lm im) :
    t.page.getMaxSize = t'.page.getMaxSize ∧ t.page.getMinSize = t'.page.getMinSize := by
  cases h with
  | zero =>
    obtain ⟨id, page, rfl⟩ := t.exists_leaf
    obtain ⟨id', page', rfl⟩ := t'.exists_leaf
    have hmax : page.maxSize = page'.maxSize := ht.trans ht'.symm
    exact ⟨hmax, congrArg (· / 2) hmax⟩
  | succ h =>
    obtain ⟨id, m, p, cs, rfl⟩ := t.exists_node
    obtain ⟨id', m', p', cs', rfl⟩ := t'.exists_node
    have hmax : m = m' := (sized_node.mp ht).1.trans (sized_node.mp ht').1.symm
    exact ⟨hmax, congrArg (fun m => (m + 1) / 2) hmax⟩

section Forecast

variable [Inhabited K]

/-- **`Remove` makes the page underfull**: its child becomes underfull and is merged, and it
has no child to spare. -/
def Underflows (key : K) : {h : Nat} → BTree K V h → Prop
  | 0, leaf _ page => key ∈ page.array.map Prod.fst ∧ page.array.length ≤ page.maxSize / 2
  | _ + 1, node _ maxSize _ cs =>
    (∃ c ∈ cs[slotOf key cs]?, Underflows key c.2 ∧
      ∃ b ∈ cs[siblingIndex (slotOf key cs)]?, c.2.Mergeable b.2) ∧
    cs.length ≤ (maxSize + 1) / 2

/-- **`Remove` makes a child borrow** from its neighbour. -/
def Borrows (key : K) : {h : Nat} → BTree K V h → Prop
  | 0, _ => False
  | _ + 1, node _ _ _ cs =>
    ∃ c ∈ cs[slotOf key cs]?, Borrows key c.2 ∨
      (Underflows key c.2 ∧ ¬ ∃ b ∈ cs[siblingIndex (slotOf key cs)]?, c.2.Mergeable b.2)

/-- **`Remove` makes an internal page underfull** that is not the root. -/
def Cascades (key : K) : {h : Nat} → BTree K V h → Prop
  | 0, _ => False
  | h + 1, node _ _ _ cs =>
    ∃ c ∈ cs[slotOf key cs]?, (0 < h ∧ Underflows key c.2) ∨ Cascades key c.2

instance decidableUnderflows (key : K) : ∀ {h : Nat} (t : BTree K V h), Decidable (Underflows key t)
  | 0, ⟨_, _⟩ => inferInstanceAs (Decidable (_ ∧ _))
  | h + 1, ⟨_, _, _, cs⟩ =>
    letI : ∀ c : K × BTree K V h, Decidable (Underflows key c.2) :=
      fun c => decidableUnderflows key c.2
    inferInstanceAs (Decidable ((∃ c ∈ cs[slotOf key cs]?, Underflows key c.2 ∧
      ∃ b ∈ cs[siblingIndex (slotOf key cs)]?, c.2.Mergeable b.2) ∧ _))

instance decidableBorrows (key : K) : ∀ {h : Nat} (t : BTree K V h), Decidable (Borrows key t)
  | 0, _ => inferInstanceAs (Decidable False)
  | h + 1, ⟨_, _, _, cs⟩ =>
    letI : ∀ c : K × BTree K V h, Decidable (Borrows key c.2) := fun c => decidableBorrows key c.2
    inferInstanceAs (Decidable (∃ c ∈ cs[slotOf key cs]?, Borrows key c.2 ∨
      (Underflows key c.2 ∧ ¬ ∃ b ∈ cs[siblingIndex (slotOf key cs)]?, c.2.Mergeable b.2)))

instance decidableCascades (key : K) : ∀ {h : Nat} (t : BTree K V h), Decidable (Cascades key t)
  | 0, _ => inferInstanceAs (Decidable False)
  | h + 1, ⟨_, _, _, cs⟩ =>
    letI : ∀ c : K × BTree K V h, Decidable (Cascades key c.2) := fun c => decidableCascades key c.2
    inferInstanceAs (Decidable (∃ c ∈ cs[slotOf key cs]?,
      (0 < h ∧ Underflows key c.2) ∨ Cascades key c.2))

section Slot

variable {id p : PageId} {m : Nat} {l r : List (K × BTree K V h)} {b c : K × BTree K V h} {key : K}

theorem cascades_node (hslot : slotOf key (l ++ c :: r) = l.length) :
    Cascades key (node id m p (l ++ c :: r)) ↔ (0 < h ∧ Underflows key c.2) ∨ Cascades key c.2 := by
  show (∃ c' ∈ (l ++ c :: r)[slotOf key (l ++ c :: r)]?, _) ↔ _
  simp only [getElem?_slotOf hslot, Option.mem_some_iff, exists_eq_left']

theorem borrows_node (hslot : slotOf key (l ++ c :: r) = l.length)
    (hsibling : (l ++ c :: r)[siblingIndex l.length]? = some b) :
    Borrows key (node id m p (l ++ c :: r)) ↔
      Borrows key c.2 ∨ (Underflows key c.2 ∧ ¬ c.2.Mergeable b.2) := by
  show (∃ c' ∈ (l ++ c :: r)[slotOf key (l ++ c :: r)]?, _) ↔ _
  simp only [getElem?_slotOf hslot, Option.mem_some_iff, exists_eq_left']
  simp only [hslot, hsibling, Option.mem_some_iff, exists_eq_left']

theorem underflows_node (hslot : slotOf key (l ++ c :: r) = l.length)
    (hsibling : (l ++ c :: r)[siblingIndex l.length]? = some b) :
    Underflows key (node id m p (l ++ c :: r)) ↔
      (Underflows key c.2 ∧ c.2.Mergeable b.2) ∧ (l ++ c :: r).length ≤ (m + 1) / 2 := by
  show ((∃ c' ∈ (l ++ c :: r)[slotOf key (l ++ c :: r)]?, _) ∧ _) ↔ _
  simp only [getElem?_slotOf hslot, Option.mem_some_iff, exists_eq_left']
  simp only [hslot, hsibling, Option.mem_some_iff, exists_eq_left']

end Slot

/-! A key that is not in the tree changes nothing. -/

theorem Underflows.mem_keys {key : K} : ∀ {h : Nat} {t : BTree K V h},
    Underflows key t → key ∈ t.keys
  | 0, t, hunder => by
    obtain ⟨id, page, rfl⟩ := t.exists_leaf
    rw [keys, entries_leaf]
    exact hunder.1
  | h + 1, t, hunder => by
    obtain ⟨id, m, p, cs, rfl⟩ := t.exists_node
    obtain ⟨⟨c, hc, hchild, -⟩, -⟩ := hunder
    exact mem_keys_node.mpr ⟨c, List.mem_of_getElem? hc, hchild.mem_keys⟩

theorem Borrows.mem_keys {key : K} : ∀ {h : Nat} {t : BTree K V h}, Borrows key t → key ∈ t.keys
  | h + 1, t, hborrows => by
    obtain ⟨id, m, p, cs, rfl⟩ := t.exists_node
    obtain ⟨c, hc, hchild | ⟨hchild, -⟩⟩ := hborrows
    · exact mem_keys_node.mpr ⟨c, List.mem_of_getElem? hc, hchild.mem_keys⟩
    · exact mem_keys_node.mpr ⟨c, List.mem_of_getElem? hc, hchild.mem_keys⟩

theorem Cascades.mem_keys {key : K} : ∀ {h : Nat} {t : BTree K V h}, Cascades key t → key ∈ t.keys
  | h + 1, t, hcascades => by
    obtain ⟨id, m, p, cs, rfl⟩ := t.exists_node
    obtain ⟨c, hc, ⟨-, hchild⟩ | hchild⟩ := hcascades
    · exact mem_keys_node.mpr ⟨c, List.mem_of_getElem? hc, hchild.mem_keys⟩
    · exact mem_keys_node.mpr ⟨c, List.mem_of_getElem? hc, hchild.mem_keys⟩

end Forecast

/-! ## Separators -/

namespace Separated

variable {l r : List (K × BTree K V h)} {a b : K × BTree K V h}

/-- The separator between two neighbours. -/
theorem between_pair (hsep : Separated (l ++ a :: b :: r)) :
    (∀ k ∈ a.2.keys, k < b.1) ∧ (∀ k ∈ b.2.keys, b.1 ≤ k) ∧ (l ≠ [] → a.1 < b.1) := by
  have hb : b ∈ (l ++ a :: b :: r).tail := by
    cases l with
    | nil => exact List.mem_cons_self
    | cons x l => simp
  refine ⟨?_, hsep.after b hb, fun hne => ?_⟩
  · have hbefore := (List.pairwise_append.mp hsep.before).2.1
    exact (List.pairwise_cons.mp hbefore).1 b List.mem_cons_self
  · obtain ⟨x, l, rfl⟩ := List.exists_cons_of_ne_nil hne
    have hinc := (List.pairwise_append.mp hsep.increasing).2.1
    exact (List.pairwise_cons.mp hinc).1 b List.mem_cons_self

/-- **Two neighbours become one child.** -/
theorem merge {t : BTree K V h} (hsep : Separated (l ++ a :: b :: r))
    (hkeys : ∀ k ∈ t.keys, k ∈ a.2.keys ∨ k ∈ b.2.keys) : Separated (l ++ (a.1, t) :: r) := by
  obtain ⟨-, hbkeys, hab⟩ := hsep.between_pair
  obtain ⟨hbl, hbr, hblr⟩ := List.pairwise_append.mp hsep.before
  obtain ⟨hba, hbr⟩ := List.pairwise_cons.mp hbr
  obtain ⟨hbb, hbr⟩ := List.pairwise_cons.mp hbr
  have hbefore : (l ++ (a.1, t) :: r).Pairwise fun a b => ∀ k ∈ a.2.keys, k < b.1 := by
    refine List.pairwise_append.mpr ⟨hbl, List.pairwise_cons.mpr ⟨fun y hy k hk => ?_, hbr⟩, ?_⟩
    · rcases hkeys k hk with hk | hk
      · exact hba y (List.mem_cons_of_mem _ hy) k hk
      · exact hbb y hy k hk
    · intro x hx y hy
      rcases List.mem_cons.mp hy with rfl | hy
      · exact hblr x hx a List.mem_cons_self
      · exact hblr x hx y (List.mem_cons_of_mem _ (List.mem_cons_of_mem _ hy))
  cases l with
  | nil =>
    have hinc : Increasing (b :: r) := hsep.increasing
    exact ⟨(List.pairwise_cons.mp hinc).2, hbefore,
      fun x hx => hsep.after x (List.mem_cons_of_mem _ hx)⟩
  | cons x₀ l =>
    obtain ⟨hil, hir, hilr⟩ := List.pairwise_append.mp hsep.increasing
    obtain ⟨hia, hir⟩ := List.pairwise_cons.mp hir
    refine ⟨List.pairwise_append.mpr ⟨hil, List.pairwise_cons.mpr ⟨?_, ?_⟩, ?_⟩, hbefore, ?_⟩
    · exact fun y hy => hia y (List.mem_cons_of_mem _ hy)
    · exact (List.pairwise_cons.mp hir).2
    · intro x hx y hy
      rcases List.mem_cons.mp hy with rfl | hy
      · exact hilr x hx a List.mem_cons_self
      · exact hilr x hx y (List.mem_cons_of_mem _ (List.mem_cons_of_mem _ hy))
    · intro x hx k hk
      rcases List.mem_append.mp hx with hx | hx
      · exact hsep.after x (List.mem_append_left _ hx) k hk
      · rcases List.mem_cons.mp hx with rfl | hx
        · rcases hkeys k hk with hk | hk
          · exact hsep.after a (List.mem_append_right _ List.mem_cons_self) k hk
          · exact (hab (List.cons_ne_nil _ _)).le.trans (hbkeys k hk)
        · refine hsep.after x (List.mem_append_right _ ?_) k hk
          exact List.mem_cons_of_mem _ (List.mem_cons_of_mem _ hx)

end Separated

/-! ## Shrinking -/

section Shrinking

variable [Inhabited K]

/-- **The key was removed** from the subtree `t`, which is now `t'`. -/
structure Shrinks (lm im : Nat) (key : K) (t t' : BTree K V h) : Prop where
  id : t'.id = t.id
  parent : t'.parent = t.parent
  sized : t'.Sized lm im
  entries : ∃ v, t.entries.Perm ((key, v) :: t'.entries)
  ids : t'.ids.Subperm t.ids
  links : t'.Links ↔ ¬ Cascades key t
  ordered : ¬ Cascades key t → t'.Ordered
  chain : ¬ Cascades key t → ∀ next, Chained t.chain next → Chained t'.chain next
  first : ¬ Cascades key t → ∀ next, firstId t'.chain next = firstId t.chain next

/-- The key was removed below the children `cs` of the page `id`; its children are now
`cs'`. What `cascades` says is that an internal page among them became underfull. -/
structure ShrunkChildren (key : K) (id : PageId) (cascades : Prop)
    (cs cs' : List (K × BTree K V h)) : Prop where
  entries : ∃ v, (cs.flatMap fun c => c.2.entries).Perm
    ((key, v) :: cs'.flatMap fun c => c.2.entries)
  ids : (cs'.flatMap fun c => c.2.ids).Subperm (cs.flatMap fun c => c.2.ids)
  parent : ∀ c ∈ cs', c.2.parent = id
  links : (∀ c ∈ cs', c.2.parent = id ∧ c.2.Links) ↔ ¬ cascades
  separated : ¬ cascades → Separated cs'
  ordered : ¬ cascades → ∀ c ∈ cs', c.2.Ordered
  chain : ¬ cascades → ∀ next, Chained (cs.flatMap fun c => c.2.chain) next →
    Chained (cs'.flatMap fun c => c.2.chain) next
  first : ¬ cascades → ∀ next, firstId (cs'.flatMap fun c => c.2.chain) next =
    firstId (cs.flatMap fun c => c.2.chain) next

/-- **An entry of a leaf is removed.** -/
theorem shrinks_leaf {lm im : Nat} {key : K} {v : V} {id : PageId} {page : LeafPage K V}
    {l r : List (K × V)} (hmax : page.maxSize = lm) (hinc : Increasing page.array)
    (harray : page.array = l ++ (key, v) :: r) :
    Shrinks lm im key (leaf id page) (leaf id { page with array := l ++ r }) where
  id := rfl
  parent := rfl
  sized := hmax
  entries := by
    refine ⟨v, ?_⟩
    rw [entries_leaf, entries_leaf, harray]
    exact List.perm_middle
  ids := List.Subperm.refl _
  links := iff_of_true trivial fun hfalse => hfalse
  ordered := fun _ => by
    have hsublist : (l ++ r).Sublist page.array := by
      rw [harray]
      exact (List.sublist_cons_self _ _).append_left l
    exact hinc.sublist hsublist
  chain := fun _ _ hchain => hchain
  first := fun _ _ => rfl

section Children

variable {lm im : Nat} {key : K} {id p : PageId} {cs cs' l r new : List (K × BTree K V h)}
  {a b c : K × BTree K V h} {cascades : Prop}

theorem Shrinks.mem_keys {t t' : BTree K V h} (hshrinks : Shrinks lm im key t t') {k : K}
    (hk : k ∈ t'.keys) : k ∈ t.keys := by
  obtain ⟨v, hperm⟩ := hshrinks.entries
  obtain ⟨e, he, rfl⟩ := List.mem_map.mp hk
  exact List.mem_map_of_mem (hperm.mem_iff.mpr (List.mem_cons_of_mem _ he))

/-- The page above a child that shrank. -/
theorem Shrinks.children {t₁ : BTree K V h} (hshrinks : Shrinks lm im key c.2 t₁)
    (hlinks : ∀ x ∈ l ++ c :: r, x.2.parent = id ∧ x.2.Links) (hsep : Separated (l ++ c :: r))
    (hordered : ∀ x ∈ l ++ c :: r, x.2.Ordered) :
    ShrunkChildren key id (Cascades key c.2) (l ++ c :: r) (l ++ (c.1, t₁) :: r) := by
  have hc : c ∈ l ++ c :: r := List.mem_append_right _ List.mem_cons_self
  have hmem : ∀ x ∈ l ++ (c.1, t₁) :: r, x ∈ l ++ c :: r ∨ x = (c.1, t₁) := by
    intro x hx
    rcases List.mem_append.mp hx with hx | hx
    · exact .inl (List.mem_append_left _ hx)
    · rcases List.mem_cons.mp hx with hx | hx
      · exact .inr hx
      · exact .inl (List.mem_append_right _ (List.mem_cons_of_mem _ hx))
  have hparent : ∀ x ∈ l ++ (c.1, t₁) :: r, x.2.parent = id := by
    intro x hx
    rcases hmem x hx with hx | rfl
    · exact (hlinks x hx).1
    · exact hshrinks.parent.trans (hlinks c hc).1
  refine ⟨?_, ?_, hparent, ⟨fun hall => ?_, fun hnot x hx => ⟨hparent x hx, ?_⟩⟩, fun hnot => ?_,
    fun hnot x hx => ?_, fun hnot next hchain => ?_, fun hnot next => ?_⟩
  · obtain ⟨v, hperm⟩ := hshrinks.entries
    refine ⟨v, ?_⟩
    simp only [List.flatMap_append, List.flatMap_cons]
    exact ((hperm.append_right _).append_left _).trans List.perm_middle
  · simp only [List.flatMap_append, List.flatMap_cons]
    exact (List.subperm_append_left _).mpr ((List.subperm_append_right _).mpr hshrinks.ids)
  · exact hshrinks.links.mp (hall (c.1, t₁) (by simp)).2
  · rcases hmem x hx with hx | rfl
    · exact (hlinks x hx).2
    · exact hshrinks.links.mpr hnot
  · refine hsep.replace ⟨.nil, List.pairwise_singleton _ _, fun _ hx => absurd hx List.not_mem_nil⟩
      (fun x hx k hk => ?_) fun _ hx => absurd hx List.not_mem_nil
    rw [List.mem_singleton.mp hx] at hk
    exact hsep.between (hshrinks.mem_keys hk)
  · rcases hmem x hx with hx | rfl
    · exact hordered x hx
    · exact hshrinks.ordered hnot
  · simp only [List.flatMap_append, List.flatMap_cons, chained_append, firstId_append] at hchain ⊢
    rw [hshrinks.first hnot]
    exact ⟨hchain.1, hshrinks.chain hnot _ hchain.2.1, hchain.2.2⟩
  · simp only [List.flatMap_append, List.flatMap_cons, firstId_append, hshrinks.first hnot]

/-- The page above children that shrank. -/
theorem ShrunkChildren.shrinks {m : Nat} (hshrunk : ShrunkChildren key id cascades cs cs')
    (hsized : ∀ c ∈ cs', c.2.Fits ∧ c.2.Sized lm im) (hne : cs' ≠ []) (hm : m = im)
    (hcascades : Cascades key (node id m p cs) ↔ cascades) :
    Shrinks lm im key (node id m p cs) (node id m p cs') where
  id := rfl
  parent := rfl
  sized := ⟨hm, hne, hsized⟩
  entries := by
    simpa only [entries_node] using hshrunk.entries
  ids := by
    rw [ids_node, ids_node]
    exact (List.subperm_cons _).mpr hshrunk.ids
  links := by
    rw [hcascades, ← hshrunk.links]
    rfl
  ordered := fun hnot => by
    rw [hcascades] at hnot
    exact ⟨hshrunk.separated hnot, hshrunk.ordered hnot⟩
  chain := fun hnot => by
    rw [hcascades] at hnot
    simpa only [chain_node] using hshrunk.chain hnot
  first := fun hnot => by
    rw [hcascades] at hnot
    simpa only [chain_node] using hshrunk.first hnot

end Children

end Shrinking

/-! ## Two leaves -/

section Leaves

variable {key : K} {id ia ib : PageId} {cs l r : List (K × BTree K V 0)} {ka kb : K}
  {pa pb : LeafPage K V}

/-- The left leaf after it took the entries of the right one. -/
def mergeLeaves (pa pb : LeafPage K V) : LeafPage K V :=
  { pa with nextPageId := pb.nextPageId, array := pa.array ++ pb.array }

/-- The entries of two neighbours are in order. -/
theorem Separated.increasing_append
    (hsep : Separated (l ++ (ka, leaf ia pa) :: (kb, leaf ib pb) :: r)) (ha : Increasing pa.array)
    (hb : Increasing pb.array) : Increasing (pa.array ++ pb.array) := by
  obtain ⟨hbefore, hafter, -⟩ := hsep.between_pair
  simp only [keys, entries_leaf] at hbefore hafter
  refine List.pairwise_append.mpr ⟨ha, hb, fun x hx y hy => ?_⟩
  exact (hbefore x.1 (List.mem_map_of_mem hx)).trans_le (hafter y.1 (List.mem_map_of_mem hy))

/-- **Two leaves are merged.** -/
theorem ShrunkChildren.mergeLeaves
    (hshrunk : ShrunkChildren key id False cs (l ++ (ka, leaf ia pa) :: (kb, leaf ib pb) :: r)) :
    ShrunkChildren key id False cs (l ++ (ka, leaf ia (mergeLeaves pa pb)) :: r) := by
  have hlinks := hshrunk.links.mpr not_false
  have hsep := hshrunk.separated not_false
  have hordered := hshrunk.ordered not_false
  have hmem : ∀ x ∈ l ++ (ka, leaf ia (BTree.mergeLeaves pa pb)) :: r,
      x ∈ l ++ (ka, leaf ia pa) :: (kb, leaf ib pb) :: r ∨
        x = (ka, leaf ia (BTree.mergeLeaves pa pb)) := by
    intro x hx
    rcases List.mem_append.mp hx with hx | hx
    · exact .inl (List.mem_append_left _ hx)
    · rcases List.mem_cons.mp hx with hx | hx
      · exact .inr hx
      · exact .inl (List.mem_append_right _ (List.mem_cons_of_mem _ (List.mem_cons_of_mem _ hx)))
  have hlinks' : ∀ x ∈ l ++ (ka, leaf ia (BTree.mergeLeaves pa pb)) :: r,
      x.2.parent = id ∧ x.2.Links := by
    intro x hx
    rcases hmem x hx with hx | rfl
    · exact hlinks x hx
    · exact ⟨(hlinks (ka, leaf ia pa) (by simp)).1, trivial⟩
  refine ⟨?_, ?_, fun x hx => (hlinks' x hx).1, iff_of_true hlinks' not_false, fun _ => ?_,
    fun _ x hx => ?_, fun _ next hchain => ?_, fun _ next => ?_⟩
  · obtain ⟨v, hperm⟩ := hshrunk.entries
    refine ⟨v, ?_⟩
    simpa only [List.flatMap_append, List.flatMap_cons, entries_leaf, BTree.mergeLeaves,
      List.append_assoc] using hperm
  · refine List.Subperm.trans (List.Sublist.subperm ?_) hshrunk.ids
    simp only [List.flatMap_append, List.flatMap_cons]
    exact ((List.sublist_append_right _ _).append_left _).append_left _
  · refine hsep.merge fun k hk => ?_
    simpa only [keys, entries_leaf, BTree.mergeLeaves, List.map_append, List.mem_append] using hk
  · rcases hmem x hx with hx | rfl
    · exact hordered x hx
    · exact hsep.increasing_append (hordered (ka, leaf ia pa) (by simp))
        (hordered (kb, leaf ib pb) (by simp))
  · have hchain' := hshrunk.chain not_false next hchain
    simp only [List.flatMap_append, List.flatMap_cons, chained_append, firstId_append] at hchain' ⊢
    exact ⟨hchain'.1, ⟨hchain'.2.2.1.1, trivial⟩, hchain'.2.2.2⟩
  · rw [← hshrunk.first not_false next]
    simp only [List.flatMap_append, List.flatMap_cons, firstId_append]
    rfl

/-- **A leaf borrows from its neighbour**: the entries of the two are split at another
place, before the entry `e`, whose key is the new separator. -/
theorem ShrunkChildren.borrowLeaves {x y : List (K × V)} {e : K × V}
    (hshrunk : ShrunkChildren key id False cs (l ++ (ka, leaf ia pa) :: (kb, leaf ib pb) :: r))
    (hsplit : pa.array ++ pb.array = x ++ e :: y) (hne : x ≠ []) :
    ShrunkChildren key id False cs
      (l ++ (ka, leaf ia { pa with array := x }) ::
        (e.1, leaf ib { pb with array := e :: y }) :: r) := by
  have hlinks := hshrunk.links.mpr not_false
  have hsep := hshrunk.separated not_false
  have hordered := hshrunk.ordered not_false
  have hinc := hsep.increasing_append (hordered (ka, leaf ia pa) (by simp))
    (hordered (kb, leaf ib pb) (by simp))
  rw [hsplit] at hinc
  obtain ⟨hincx, hincy, -⟩ := List.pairwise_append.mp hinc
  have hmem : ∀ z ∈ l ++ (ka, leaf ia { pa with array := x }) ::
        (e.1, leaf ib { pb with array := e :: y }) :: r,
      z ∈ l ++ (ka, leaf ia pa) :: (kb, leaf ib pb) :: r ∨
        z = (ka, leaf ia { pa with array := x }) ∨
        z = (e.1, leaf ib { pb with array := e :: y }) := by
    intro z hz
    rcases List.mem_append.mp hz with hz | hz
    · exact .inl (List.mem_append_left _ hz)
    · rcases List.mem_cons.mp hz with hz | hz
      · exact .inr (.inl hz)
      · rcases List.mem_cons.mp hz with hz | hz
        · exact .inr (.inr hz)
        · exact .inl (List.mem_append_right _ (List.mem_cons_of_mem _ (List.mem_cons_of_mem _ hz)))
  have hlinks' : ∀ z ∈ l ++ (ka, leaf ia { pa with array := x }) ::
      (e.1, leaf ib { pb with array := e :: y }) :: r, z.2.parent = id ∧ z.2.Links := by
    intro z hz
    rcases hmem z hz with hz | rfl | rfl
    · exact hlinks z hz
    · exact ⟨(hlinks (ka, leaf ia pa) (by simp)).1, trivial⟩
    · exact ⟨(hlinks (kb, leaf ib pb) (by simp)).1, trivial⟩
  refine ⟨?_, ?_, fun z hz => (hlinks' z hz).1, iff_of_true hlinks' not_false, fun _ => ?_,
    fun _ z hz => ?_, fun _ next hchain => ?_, fun _ next => ?_⟩
  · obtain ⟨v, hperm⟩ := hshrunk.entries
    refine ⟨v, ?_⟩
    simp only [List.flatMap_append, List.flatMap_cons, entries_leaf] at hperm ⊢
    rwa [← List.append_assoc pa.array, hsplit, List.append_assoc] at hperm
  · refine List.Subperm.trans (List.Perm.subperm ?_) hshrunk.ids
    simp only [List.flatMap_append, List.flatMap_cons]
    exact .refl _
  · -- as if the two were merged and the leaf that results was split
    have hmerged : Separated (l ++ (ka, leaf ia (BTree.mergeLeaves pa pb)) :: r) :=
      hshrunk.mergeLeaves.separated not_false
    refine hmerged.replace_of_keys (separated_leaves rfl hinc ka) ?_ ?_
    · intro z hz k hk
      refine hmerged.between ?_
      rw [keys, entries_leaf, BTree.mergeLeaves, hsplit, List.map_append, List.mem_append]
      rcases List.mem_cons.mp hz with rfl | hz
      · exact .inl (by simpa only [keys, entries_leaf] using hk)
      · rw [List.mem_singleton.mp hz] at hk
        exact .inr (by simpa only [keys, entries_leaf] using hk)
    · simp only [List.forall_mem_cons, entries_leaf]
      exact ⟨hne, List.cons_ne_nil _ _, fun _ hz => absurd hz List.not_mem_nil⟩
  · rcases hmem z hz with hz | rfl | rfl
    · exact hordered z hz
    · exact hincx
    · exact hincy
  · have hchain' := hshrunk.chain not_false next hchain
    simp only [List.flatMap_append, List.flatMap_cons] at hchain' ⊢
    exact hchain'
  · rw [← hshrunk.first not_false next]
    simp only [List.flatMap_append, List.flatMap_cons]
    rfl

end Leaves

/-! ## Two internal pages -/

/-- Children with a page that has the wrong parent stand in the place of two neighbours. -/
theorem ShrunkChildren.broken {key : K} {id : PageId} {cascades : Prop}
    {cs l r new : List (K × BTree K V h)} {a b : K × BTree K V h}
    (hshrunk : ShrunkChildren key id cascades cs (l ++ a :: b :: r))
    (hentries : (new.flatMap fun c => c.2.entries).Perm (a.2.entries ++ b.2.entries))
    (hids : (new.flatMap fun c => c.2.ids).Subperm (a.2.ids ++ b.2.ids))
    (hparent : ∀ c ∈ new, c.2.parent = a.2.parent ∨ c.2.parent = b.2.parent)
    (hlinks : ∃ c ∈ new, ¬ c.2.Links) : ShrunkChildren key id True cs (l ++ (new ++ r)) where
  entries := by
    obtain ⟨v, hperm⟩ := hshrunk.entries
    refine ⟨v, hperm.trans (.cons _ ?_)⟩
    simp only [List.flatMap_append, List.flatMap_cons, ← List.append_assoc _ b.2.entries]
    exact (hentries.symm.append_right _).append_left _
  ids := by
    refine List.Subperm.trans ?_ hshrunk.ids
    simp only [List.flatMap_append, List.flatMap_cons, ← List.append_assoc _ b.2.ids]
    exact (List.subperm_append_left _).mpr ((List.subperm_append_right _).mpr hids)
  parent := fun x hx => by
    have hold := hshrunk.parent
    rcases List.mem_append.mp hx with hx | hx
    · exact hold x (List.mem_append_left _ hx)
    · rcases List.mem_append.mp hx with hx | hx
      · rcases hparent x hx with heq | heq
        · exact heq.trans (hold a (by simp))
        · exact heq.trans (hold b (by simp))
      · exact hold x (by simp [hx])
  links := by
    refine iff_of_false (fun hall => ?_) (not_not_intro trivial)
    obtain ⟨c, hc, hbroken⟩ := hlinks
    exact hbroken (hall c (by simp [hc])).2
  separated := fun hnot => absurd trivial hnot
  ordered := fun hnot => absurd trivial hnot
  chain := fun hnot => absurd trivial hnot
  first := fun hnot => absurd trivial hnot

section Inner

variable {key : K} {id ia ib pa pb : PageId} {m m' : Nat} {cascades : Prop}
  {cs l r : List (K × BTree K V (h + 1))} {as bs : List (K × BTree K V h)}
  {b₀ b₁ e : K × BTree K V h} {ka kb : K}

/-- **Two internal pages are merged.** Every child gets the parent of the page that lists it
as its parent. -/
theorem ShrunkChildren.mergeInner (hne : pa ≠ ia) (hshrunk : ShrunkChildren key id cascades cs
      (l ++ (ka, node ia m pa as) :: (kb, node ib m' pb (b₀ :: bs)) :: r)) :
    ShrunkChildren key id True cs
      (l ++ ([(ka, node ia m pa (adopt pa (as ++ (kb, b₀.2) :: bs)))] ++ r)) := by
  refine hshrunk.broken ?_ ?_ (fun c hc => .inl ?_) ⟨_, List.mem_cons_self, fun hlinks => ?_⟩
  · simp only [List.flatMap_cons, List.flatMap_nil, List.append_nil, entries_node, adopt,
      List.flatMap_map, List.flatMap_append, entries_setParent]
    exact .refl _
  · simp only [List.flatMap_cons, List.flatMap_nil, List.append_nil, ids_node, adopt,
      List.flatMap_map, List.flatMap_append, ids_setParent, List.cons_append]
    exact (List.subperm_cons _).mpr ((List.sublist_cons_self _ _).append_left _).subperm
  · rw [List.mem_singleton.mp hc]
    rfl
  · have hchild := (hlinks (kb, b₀.2.setParent pa) (List.mem_map.mpr ⟨(kb, b₀.2), by simp, rfl⟩)).1
    rw [parent_setParent] at hchild
    exact hne hchild

/-- **An internal page borrows the last child of its left neighbour.** The child gets slot
1, and the child in slot 0 gets a wrong parent. -/
theorem ShrunkChildren.borrowLast (hne : pb ≠ ib) (hshrunk : ShrunkChildren key id cascades cs
      (l ++ (ka, node ia m pa (as ++ [e])) :: (kb, node ib m' pb (b₀ :: bs)) :: r)) :
    ShrunkChildren key id True cs
      (l ++ ([(ka, node ia m pa as),
        (kb, node ib m' pb ((b₀.1, b₀.2.setParent pb) :: (kb, e.2) :: bs))] ++ r)) := by
  refine hshrunk.broken ?_ ?_ ?_ ⟨_, List.mem_cons_of_mem _ List.mem_cons_self, fun hlinks => ?_⟩
  · simp only [List.flatMap_cons, List.flatMap_nil, List.append_nil, entries_node,
      List.flatMap_append, entries_setParent, List.append_assoc]
    refine List.Perm.append_left _ ?_
    rw [← List.append_assoc, ← List.append_assoc]
    exact List.perm_append_comm.append_right _
  · simp only [List.flatMap_cons, List.flatMap_nil, List.append_nil, ids_node,
      List.flatMap_append, ids_setParent, List.append_assoc, List.cons_append]
    refine (List.subperm_cons _).mpr (List.Perm.subperm (List.Perm.append_left _ ?_))
    refine (List.Perm.cons _ ?_).trans List.perm_middle.symm
    rw [← List.append_assoc, ← List.append_assoc]
    exact List.perm_append_comm.append_right _
  · simp only [List.forall_mem_cons]
    exact ⟨.inl rfl, .inr rfl, fun _ hc => absurd hc List.not_mem_nil⟩
  · have hchild := (hlinks (b₀.1, b₀.2.setParent pb) List.mem_cons_self).1
    rw [parent_setParent] at hchild
    exact hne hchild

/-- **An internal page borrows the first child of its right neighbour.** The child gets a
wrong parent. -/
theorem ShrunkChildren.borrowFirst (hne : pa ≠ ia) (hshrunk : ShrunkChildren key id cascades cs
      (l ++ (ka, node ia m pa as) :: (kb, node ib m' pb (e :: b₁ :: bs)) :: r)) (k : K) :
    ShrunkChildren key id True cs
      (l ++ ([(ka, node ia m pa (as ++ [(kb, e.2.setParent pa)])),
        (k, node ib m' pb ((e.1, b₁.2) :: bs))] ++ r)) := by
  refine hshrunk.broken ?_ ?_ ?_ ⟨_, List.mem_cons_self, fun hlinks => ?_⟩
  · simp only [List.flatMap_cons, List.flatMap_nil, List.append_nil, entries_node,
      List.flatMap_append, entries_setParent, List.append_assoc]
    exact .refl _
  · simp only [List.flatMap_cons, List.flatMap_nil, List.append_nil, ids_node,
      List.flatMap_append, ids_setParent, List.append_assoc, List.cons_append]
    refine (List.subperm_cons _).mpr (List.Perm.subperm (List.Perm.append_left _ ?_))
    exact List.perm_middle
  · simp only [List.forall_mem_cons]
    exact ⟨.inl rfl, .inr rfl, fun _ hc => absurd hc List.not_mem_nil⟩
  · have hchild := (hlinks (kb, e.2.setParent pa) (by simp)).1
    rw [parent_setParent] at hchild
    exact hne hchild

end Inner

end BTree

end OneBase
