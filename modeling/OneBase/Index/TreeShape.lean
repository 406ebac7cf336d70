import Mathlib.Data.List.Flatten
import OneBase.Index.BPlusTree

/-!
# What a B+ tree looks like

A subtree of height `h` together with the pages on it: all its leaves have the same depth
because of its type. The parts of well-formedness are separate properties of such a tree,
and `BTree.Rep` says that the store has the pages.

- `BTree.Links`, `BTree.Sized`, `BTree.Ordered`, `Chained`: the parts.
- `BPlusTree.WellFormed`: the store holds a well-formed tree.
-/

namespace OneBase

/-- A leaf and its page. -/
structure LeafNode (K V : Type) where
  id : PageId
  page : LeafPage K V

/-- An internal page, with what is below it. -/
structure InnerNode (K α : Type) where
  id : PageId
  maxSize : Nat
  parent : PageId
  children : List (K × α)

/-- A subtree of height `h`. -/
def BTree (K V : Type) : Nat → Type
  | 0 => LeafNode K V
  | h + 1 => InnerNode K (BTree K V h)

namespace BTree

variable {K V : Type} {h : Nat}

@[match_pattern] abbrev leaf (id : PageId) (page : LeafPage K V) : BTree K V 0 :=
  (⟨id, page⟩ : LeafNode K V)

@[match_pattern] abbrev node (id : PageId) (maxSize : Nat) (parent : PageId)
    (children : List (K × BTree K V h)) : BTree K V (h + 1) :=
  (⟨id, maxSize, parent, children⟩ : InnerNode K (BTree K V h))

theorem exists_leaf (t : BTree K V 0) : ∃ id page, t = leaf id page := ⟨_, _, rfl⟩

theorem exists_node (t : BTree K V (h + 1)) :
    ∃ id maxSize parent cs, t = node id maxSize parent cs := ⟨_, _, _, _, rfl⟩

def id : {h : Nat} → BTree K V h → PageId
  | 0, leaf id _ => id
  | _ + 1, node id _ _ _ => id

/-- The slots of an internal page with these children. -/
def slots (cs : List (K × BTree K V h)) : List (K × PageId) := cs.map fun c => (c.1, c.2.id)

/-- The page of the root. -/
def page : {h : Nat} → BTree K V h → TreePage K V
  | 0, leaf _ page => .leaf page
  | _ + 1, node _ maxSize parent cs => .internal ⟨maxSize, parent, slots cs⟩

def parent (t : BTree K V h) : PageId := t.page.getParentPageId

/-- The tree after `SetParentPageId` of its root. -/
def setParent (p : PageId) : {h : Nat} → BTree K V h → BTree K V h
  | 0, leaf id page => leaf id { page with parentPageId := p }
  | _ + 1, node id maxSize _ cs => node id maxSize p cs

/-- All pages. -/
def pages : {h : Nat} → BTree K V h → List (PageId × TreePage K V)
  | 0, leaf id page => [(id, .leaf page)]
  | _ + 1, node id maxSize parent cs =>
    (id, .internal ⟨maxSize, parent, slots cs⟩) :: cs.flatMap fun c => pages c.2

/-- The ids of all pages. -/
def ids (t : BTree K V h) : List PageId := t.pages.map Prod.fst

/-- The leaf pages from left to right. -/
def leaves : {h : Nat} → BTree K V h → List (PageId × LeafPage K V)
  | 0, leaf id page => [(id, page)]
  | _ + 1, node _ _ _ cs => cs.flatMap fun c => leaves c.2

/-- The ids of the leaf pages from left to right, each with its `next_page_id_`. -/
def chain (t : BTree K V h) : List (PageId × PageId) :=
  t.leaves.map fun l => (l.1, l.2.nextPageId)

/-- The entries from left to right. -/
def entries (t : BTree K V h) : List (K × V) := t.leaves.flatMap fun l => l.2.array

def keys (t : BTree K V h) : List K := t.entries.map Prod.fst

/-! ## The parts of well-formedness -/

/-- The store has the pages of the tree. -/
def Rep (store : PageId → Option (TreePage K V)) (t : BTree K V h) : Prop :=
  ∀ e ∈ t.pages, store e.1 = some e.2

/-- Below the root, the parent of a page is the page that lists it. -/
def Links : {h : Nat} → BTree K V h → Prop
  | 0, _ => True
  | _ + 1, node id _ _ cs => ∀ c ∈ cs, c.2.parent = id ∧ Links c.2

/-- The size of the root page is within its bounds. -/
def Fits (t : BTree K V h) : Prop :=
  t.page.getMinSize ≤ t.page.getSize ∧ t.page.getSize ≤ t.page.getMaxSize

/-- The root page is not too small: a leaf has an entry, an internal page two children. -/
def RootMin (t : BTree K V h) : Prop := (if t.page.isLeafPage then 1 else 2) ≤ t.page.getSize

/-- Below the root, sizes are within their bounds. -/
def Sized (leafMaxSize internalMaxSize : Nat) : {h : Nat} → BTree K V h → Prop
  | 0, leaf _ page => page.maxSize = leafMaxSize
  | _ + 1, node _ maxSize _ cs =>
    maxSize = internalMaxSize ∧ cs ≠ [] ∧
      ∀ c ∈ cs, c.2.Fits ∧ Sized leafMaxSize internalMaxSize c.2

/-- The separators of an internal page increase, and every key below a child is below the
separators to its right and not below its own separator. Slot 0 has no separator. -/
structure Separated [LT K] [LE K] (cs : List (K × BTree K V h)) : Prop where
  increasing : Increasing cs.tail
  before : cs.Pairwise fun a b => ∀ k ∈ a.2.keys, k < b.1
  after : ∀ c ∈ cs.tail, ∀ k ∈ c.2.keys, c.1 ≤ k

/-- Keys and separators are in order. -/
def Ordered [LT K] [LE K] : {h : Nat} → BTree K V h → Prop
  | 0, leaf _ page => Increasing page.array
  | _ + 1, node _ _ _ cs => Separated cs ∧ ∀ c ∈ cs, Ordered c.2

end BTree

/-- The id of the first leaf of a chain, `next` if there is none. -/
def firstId (chain : List (PageId × PageId)) (next : PageId) : PageId :=
  match chain with
  | [] => next
  | l :: _ => l.1

/-- Every leaf has the id of the one after it as `next_page_id_`; the last has `next`. -/
def Chained : List (PageId × PageId) → PageId → Prop
  | [], _ => True
  | l :: ls, next => l.2 = firstId ls next ∧ Chained ls next

namespace BPlusTree

variable {K V : Type} [LinearOrder K] {h : Nat}

/-- **The store holds a well-formed tree.** The size of the root is left open. -/
structure WellFormed (s : BPlusTree K V) (t : BTree K V h) : Prop where
  root : s.rootPageId = t.id
  rep : t.Rep s.pages
  nodup : t.ids.Nodup
  alloc : ∀ p ∈ t.ids, 0 ≤ p ∧ p < s.nextPageId
  parent : t.parent = invalidPageId
  links : t.Links
  sized : t.Sized s.leafMaxSize s.internalMaxSize
  ordered : t.Ordered
  chained : Chained t.chain invalidPageId

end BPlusTree

namespace BTree

variable {K V : Type} {h : Nat}

/-! ## The parts can be decided -/

section Decide

variable [LinearOrder K]

instance decidableLinks : ∀ {h : Nat} (t : BTree K V h), Decidable t.Links
  | 0, _ => isTrue trivial
  | h + 1, ⟨id, _, _, cs⟩ =>
    letI : ∀ c : K × BTree K V h, Decidable c.2.Links := fun c => decidableLinks c.2
    inferInstanceAs (Decidable (∀ c ∈ cs, c.2.parent = id ∧ c.2.Links))

instance (t : BTree K V h) : Decidable t.Fits := inferInstanceAs (Decidable (_ ∧ _))

instance (t : BTree K V h) : Decidable t.RootMin := inferInstanceAs (Decidable (_ ≤ _))

instance decidableSized (lm im : Nat) : ∀ {h : Nat} (t : BTree K V h), Decidable (t.Sized lm im)
  | 0, ⟨_, page⟩ => inferInstanceAs (Decidable (page.maxSize = lm))
  | h + 1, ⟨_, maxSize, _, cs⟩ =>
    letI : ∀ c : K × BTree K V h, Decidable (c.2.Sized lm im) := fun c => decidableSized lm im c.2
    inferInstanceAs (Decidable (maxSize = im ∧ cs ≠ [] ∧ ∀ c ∈ cs, c.2.Fits ∧ c.2.Sized lm im))

instance {α : Type} (entries : List (K × α)) : Decidable (Increasing entries) :=
  inferInstanceAs (Decidable (entries.Pairwise fun a b => a.1 < b.1))

instance (cs : List (K × BTree K V h)) : Decidable (Separated cs) :=
  decidable_of_iff (Increasing cs.tail ∧
    cs.Pairwise (fun a b => ∀ k ∈ a.2.keys, k < b.1) ∧ ∀ c ∈ cs.tail, ∀ k ∈ c.2.keys, c.1 ≤ k)
    ⟨fun h => ⟨h.1, h.2.1, h.2.2⟩, fun h => ⟨h.1, h.2, h.3⟩⟩

instance decidableOrdered : ∀ {h : Nat} (t : BTree K V h), Decidable t.Ordered
  | 0, ⟨_, page⟩ => inferInstanceAs (Decidable (Increasing page.array))
  | h + 1, ⟨_, _, _, cs⟩ =>
    letI : ∀ c : K × BTree K V h, Decidable c.2.Ordered := fun c => decidableOrdered c.2
    inferInstanceAs (Decidable (Separated cs ∧ ∀ c ∈ cs, c.2.Ordered))

end Decide

end BTree

instance decidableChained : ∀ (chain : List (PageId × PageId)) (next : PageId),
    Decidable (Chained chain next)
  | [], _ => isTrue trivial
  | l :: ls, next =>
    letI := decidableChained ls next
    inferInstanceAs (Decidable (l.2 = firstId ls next ∧ Chained ls next))

/-! ## Chains of leaves -/

section Chains

variable {a b : List (PageId × PageId)} {next : PageId}

theorem firstId_append : firstId (a ++ b) next = firstId a (firstId b next) := by
  cases a with
  | nil => rfl
  | cons _ _ => rfl

theorem chained_append : Chained (a ++ b) next ↔ Chained a (firstId b next) ∧ Chained b next := by
  induction a with
  | nil => simp [Chained]
  | cons l a ih => simp only [List.cons_append, Chained, ih, firstId_append, and_assoc]

end Chains

namespace BTree

variable {K V : Type} {h : Nat}

/-! ## Pages and entries -/

theorem pages_eq_cons (t : BTree K V h) : ∃ rest, t.pages = (t.id, t.page) :: rest := by
  cases h with
  | zero => exact ⟨[], rfl⟩
  | succ h => exact ⟨_, rfl⟩

theorem id_mem_ids (t : BTree K V h) : t.id ∈ t.ids := by
  obtain ⟨rest, hpages⟩ := t.pages_eq_cons
  rw [ids, hpages]
  exact List.mem_cons_self

theorem Rep.page {store : PageId → Option (TreePage K V)} {t : BTree K V h} (hrep : t.Rep store) :
    store t.id = some t.page := by
  obtain ⟨rest, hpages⟩ := t.pages_eq_cons
  exact hrep (t.id, t.page) (by rw [hpages]; exact List.mem_cons_self)

/-- **Pages elsewhere do not matter.** -/
theorem Rep.congr {store store' : PageId → Option (TreePage K V)} {t : BTree K V h}
    (hrep : t.Rep store) (hsame : ∀ p ∈ t.ids, store' p = store p) : t.Rep store' := by
  intro e he
  rw [hsame e.1 (List.mem_map_of_mem he)]
  exact hrep e he

/-- Children that share a page are one child. -/
theorem eq_of_mem_ids {cs : List (K × BTree K V h)} (hnodup : (cs.flatMap fun c => c.2.ids).Nodup)
    {c c' : K × BTree K V h} (hc : c ∈ cs) (hc' : c' ∈ cs) {p : PageId} (hp : p ∈ c.2.ids)
    (hp' : p ∈ c'.2.ids) : c = c' := by
  induction cs with
  | nil => exact absurd hc List.not_mem_nil
  | cons c₀ cs ih =>
    rw [List.flatMap_cons, List.nodup_append] at hnodup
    obtain ⟨-, hcs, hdisjoint⟩ := hnodup
    rcases List.mem_cons.mp hc with h₁ | h₁ <;> rcases List.mem_cons.mp hc' with h₂ | h₂
    · exact h₁.trans h₂.symm
    · rw [h₁] at hp
      exact absurd rfl (hdisjoint p hp p (List.mem_flatMap.mpr ⟨c', h₂, hp'⟩))
    · rw [h₂] at hp'
      exact absurd rfl (hdisjoint p hp' p (List.mem_flatMap.mpr ⟨c, h₁, hp⟩))
    · exact ih hcs h₁ h₂

/-- The pages below siblings are distinct. -/
theorem not_mem_ids_of_sibling {l r : List (K × BTree K V h)} {c x : K × BTree K V h}
    (hnodup : ((l ++ c :: r).flatMap fun c => c.2.ids).Nodup) (hx : x ∈ l ++ r) {p : PageId}
    (hp : p ∈ x.2.ids) : p ∉ c.2.ids := by
  intro hpc
  simp only [List.flatMap_append, List.flatMap_cons] at hnodup
  rw [List.nodup_append] at hnodup
  obtain ⟨-, hnodup, hl⟩ := hnodup
  rw [List.nodup_append] at hnodup
  obtain ⟨-, -, hr⟩ := hnodup
  rcases List.mem_append.mp hx with hx | hx
  · exact hl p (List.mem_flatMap.mpr ⟨x, hx, hp⟩) p (List.mem_append_left _ hpc) rfl
  · exact hr p hpc p (List.mem_flatMap.mpr ⟨x, hx, hp⟩) rfl

section Node

variable {id parent : PageId} {maxSize : Nat} {cs : List (K × BTree K V h)}

theorem entries_leaf {page : LeafPage K V} : (leaf id page).entries = page.array := by
  simp [entries, leaves]

theorem rep_leaf {store : PageId → Option (TreePage K V)} {page : LeafPage K V}
    (hpage : store id = some (.leaf page)) : (leaf id page).Rep store := by
  intro e he
  rw [List.mem_singleton.mp he]
  exact hpage

theorem rep_node {store : PageId → Option (TreePage K V)} :
    (node id maxSize parent cs).Rep store ↔
      store id = some (.internal ⟨maxSize, parent, slots cs⟩) ∧ ∀ c ∈ cs, c.2.Rep store := by
  simp only [Rep, pages, List.forall_mem_cons, List.mem_flatMap]
  constructor
  · rintro ⟨hpage, hall⟩
    exact ⟨hpage, fun c hc e he => hall e ⟨c, hc, he⟩⟩
  · rintro ⟨hpage, hall⟩
    refine ⟨hpage, ?_⟩
    rintro e ⟨c, hc, he⟩
    exact hall c hc e he

theorem ids_node : (node id maxSize parent cs).ids = id :: cs.flatMap fun c => c.2.ids := by
  simp only [ids, pages, List.map_cons, List.map_flatMap]

theorem entries_node : (node id maxSize parent cs).entries = cs.flatMap fun c => c.2.entries := by
  simp only [entries, leaves, List.flatMap_assoc]

theorem chain_node : (node id maxSize parent cs).chain = cs.flatMap fun c => c.2.chain := by
  simp only [chain, leaves, List.map_flatMap]

theorem mem_keys_node {k : K} :
    k ∈ (node id maxSize parent cs).keys ↔ ∃ c ∈ cs, k ∈ c.2.keys := by
  simp only [keys, entries_node, List.mem_map, List.mem_flatMap]
  constructor
  · rintro ⟨e, ⟨c, hc, he⟩, rfl⟩
    exact ⟨c, hc, e, he, rfl⟩
  · rintro ⟨c, hc, e, he, rfl⟩
    exact ⟨e, ⟨c, hc, he⟩, rfl⟩

theorem links_node : (node id maxSize parent cs).Links ↔ ∀ c ∈ cs, c.2.parent = id ∧ c.2.Links :=
  Iff.rfl

theorem sized_node {lm im : Nat} : (node id maxSize parent cs).Sized lm im ↔
    maxSize = im ∧ cs ≠ [] ∧ ∀ c ∈ cs, c.2.Fits ∧ c.2.Sized lm im :=
  Iff.rfl

theorem ordered_node [LT K] [LE K] : (node id maxSize parent cs).Ordered ↔
    Separated cs ∧ ∀ c ∈ cs, c.2.Ordered :=
  Iff.rfl

theorem fits_node : (node id maxSize parent cs).Fits ↔
    (maxSize + 1) / 2 ≤ cs.length ∧ cs.length ≤ maxSize := by
  simp [Fits, page, TreePage.getMinSize, TreePage.isLeafPage, TreePage.getMaxSize,
    TreePage.getSize, slots]

theorem fits_leaf {page : LeafPage K V} : (leaf id page).Fits ↔
    page.maxSize / 2 ≤ page.array.length ∧ page.array.length ≤ page.maxSize :=
  Iff.rfl

theorem getSize_node : (node id maxSize parent cs).page.getSize = cs.length := by
  simp [page, TreePage.getSize, slots]

theorem rootMin_node : (node id maxSize parent cs).RootMin ↔ 2 ≤ cs.length := by
  simp [RootMin, page, TreePage.isLeafPage, TreePage.getSize, slots]

theorem rootMin_leaf {page : LeafPage K V} : (leaf id page).RootMin ↔ 1 ≤ page.array.length :=
  Iff.rfl

end Node

/-! ## The parent of the root -/

section SetParent

variable {p : PageId} {t : BTree K V h}

@[simp] theorem id_setParent : (t.setParent p).id = t.id := by
  cases h with
  | zero => rfl
  | succ h => rfl

@[simp] theorem parent_setParent : (t.setParent p).parent = p := by
  cases h with
  | zero => rfl
  | succ h => rfl

/-- Only the page of the root changes. -/
theorem pages_setParent : ∃ rest, t.pages = (t.id, t.page) :: rest ∧
    (t.setParent p).pages = (t.id, t.page.setParentPageId p) :: rest := by
  cases h with
  | zero => exact ⟨[], rfl, rfl⟩
  | succ h => exact ⟨_, rfl, rfl⟩

@[simp] theorem ids_setParent : (t.setParent p).ids = t.ids := by
  obtain ⟨rest, hpages, hset⟩ := @pages_setParent K V h p t
  rw [ids, ids, hpages, hset]
  rfl

@[simp] theorem chain_setParent : (t.setParent p).chain = t.chain := by
  cases h with
  | zero => rfl
  | succ h => rfl

@[simp] theorem entries_setParent : (t.setParent p).entries = t.entries := by
  cases h with
  | zero => rfl
  | succ h => rfl

@[simp] theorem keys_setParent : (t.setParent p).keys = t.keys := by
  rw [keys, keys, entries_setParent]

@[simp] theorem links_setParent : (t.setParent p).Links ↔ t.Links := by
  cases h with
  | zero => rfl
  | succ h => rfl

@[simp] theorem sized_setParent {lm im : Nat} : (t.setParent p).Sized lm im ↔ t.Sized lm im := by
  cases h with
  | zero => rfl
  | succ h => rfl

@[simp] theorem fits_setParent : (t.setParent p).Fits ↔ t.Fits := by
  cases h with
  | zero => rfl
  | succ h => rfl

@[simp] theorem ordered_setParent [LT K] [LE K] : (t.setParent p).Ordered ↔ t.Ordered := by
  cases h with
  | zero => rfl
  | succ h => rfl

/-- The store after `SetParentPageId` of the root. -/
theorem Rep.setParent {store store' : PageId → Option (TreePage K V)} (hrep : t.Rep store)
    (hnodup : t.ids.Nodup) (hroot : store' t.id = (store t.id).map (TreePage.setParentPageId p))
    (hsame : ∀ q ∈ t.ids, q ≠ t.id → store' q = store q) : (t.setParent p).Rep store' := by
  obtain ⟨rest, hpages, hset⟩ := @pages_setParent K V h p t
  intro e he
  rw [hset] at he
  rcases List.mem_cons.mp he with rfl | he
  · rw [hroot, hrep.page]
    rfl
  · have hmem : e ∈ t.pages := by
      rw [hpages]
      exact List.mem_cons_of_mem _ he
    have hne : e.1 ≠ t.id := by
      rw [ids, hpages, List.map_cons, List.nodup_cons] at hnodup
      intro heq
      refine hnodup.1 ?_
      show t.id ∈ _
      rw [← heq]
      exact List.mem_map_of_mem he
    rw [hsame e.1 (List.mem_map_of_mem hmem) hne]
    exact hrep e hmem

end SetParent

/-! ## Order -/

section Order

variable [LinearOrder K]

/-- The keys of a tree that is in order increase from left to right. -/
theorem Ordered.increasing : ∀ {h : Nat} {t : BTree K V h}, t.Ordered → Increasing t.entries
  | 0, t, hordered => by
    obtain ⟨id, page, rfl⟩ := t.exists_leaf
    rw [entries_leaf]
    exact hordered
  | h + 1, t, hordered => by
    obtain ⟨id, maxSize, parent, cs, rfl⟩ := t.exists_node
    obtain ⟨hsep, hchildren⟩ := hordered
    rw [entries_node, Increasing, List.pairwise_flatMap]
    refine ⟨fun c hc => (hchildren c hc).increasing, ?_⟩
    cases cs with
    | nil => exact .nil
    | cons c₀ cs =>
      -- a key below a child, its right neighbour's separator, a key below the neighbour
      have hbetween : ∀ {a b : K × BTree K V h}, b ∈ cs → (∀ k ∈ a.2.keys, k < b.1) →
          ∀ x ∈ a.2.entries, ∀ y ∈ b.2.entries, x.1 < y.1 := by
        intro a b hb hlt x hx y hy
        exact (hlt x.1 (List.mem_map_of_mem hx)).trans_le
          (hsep.after b hb y.1 (List.mem_map_of_mem hy))
      obtain ⟨hhead, htail⟩ := List.pairwise_cons.mp hsep.before
      refine List.pairwise_cons.mpr ⟨fun b hb => hbetween hb (hhead b hb), ?_⟩
      exact htail.imp_of_mem fun _ hb hlt => hbetween hb hlt

omit [LinearOrder K] in
/-- A page that is not underfull has entries below it. -/
theorem entries_ne_nil {lm im : Nat} (hlm : 2 ≤ lm) : ∀ {h : Nat} {t : BTree K V h},
    t.Sized lm im → t.Fits → t.entries ≠ []
  | 0, t, hsized, hfits => by
    obtain ⟨id, page, rfl⟩ := t.exists_leaf
    have hmax : page.maxSize = lm := hsized
    have hlen := (fits_leaf.mp hfits).1
    intro hnil
    rw [entries_leaf] at hnil
    rw [hmax, hnil, List.length_nil] at hlen
    omega
  | h + 1, t, hsized, hfits => by
    obtain ⟨id, maxSize, parent, cs, rfl⟩ := t.exists_node
    obtain ⟨-, hne, hchildren⟩ := hsized
    obtain ⟨c, hc⟩ := List.exists_mem_of_ne_nil cs hne
    have hchild := entries_ne_nil hlm (hchildren c hc).2 (hchildren c hc).1
    rw [entries_node]
    intro hnil
    exact hchild (List.flatMap_eq_nil_iff.mp hnil c hc)

variable [Inhabited K] {cs : List (K × BTree K V h)} {key : K}

/-- The slot that `Lookup` finds in a page with these children. -/
def slotOf (key : K) (cs : List (K × BTree K V h)) : Nat :=
  (⟨0, invalidPageId, slots cs⟩ : InternalPage K).lookupIndex key

theorem getElem?_slotOf {l r : List (K × BTree K V h)} {c : K × BTree K V h}
    (hslot : slotOf key (l ++ c :: r) = l.length) :
    (l ++ c :: r)[slotOf key (l ++ c :: r)]? = some c := by
  rw [hslot]
  simp

/-- The child that `Lookup` goes to. -/
structure Route (key : K) (cs l : List (K × BTree K V h)) (c : K × BTree K V h)
    (r : List (K × BTree K V h)) : Prop where
  split : cs = l ++ c :: r
  above : l ≠ [] → c.1 ≤ key
  below : ∀ x ∈ r, key < x.1

theorem exists_route (hsep : Separated cs) (hne : cs ≠ []) (maxSize : Nat) (parent : PageId)
    (key : K) : ∃ l c r, Route key cs l c r ∧
      (⟨maxSize, parent, slots cs⟩ : InternalPage K).lookupIndex key = l.length ∧
      (⟨maxSize, parent, slots cs⟩ : InternalPage K).lookup key = c.2.id := by
  have hne' : slots cs ≠ [] := by simpa [slots] using hne
  have hinc : Increasing (slots cs).tail := by
    rw [slots, ← List.map_tail, Increasing, List.pairwise_map]
    exact hsep.increasing
  obtain ⟨l', e, r', harray, hindex, hlookup, hl, hr⟩ :=
    @InternalPage.lookup_spec K _ _ ⟨maxSize, parent, slots cs⟩ hne' hinc key
  obtain ⟨l, cr, rfl, rfl, hcr⟩ := List.map_eq_append_iff.mp harray
  obtain ⟨c, r, rfl, rfl, rfl⟩ := List.map_eq_cons_iff.mp hcr
  refine ⟨l, c, r, ⟨rfl, fun hne => hl (by simpa using hne), fun x hx => ?_⟩,
    by simpa using hindex, hlookup⟩
  exact hr (x.1, x.2.id) (List.mem_map_of_mem hx)

omit [Inhabited K] in
/-- A key below a child is between the separators of the child. -/
theorem Separated.between {l r : List (K × BTree K V h)} {c : K × BTree K V h}
    (hsep : Separated (l ++ c :: r)) {k : K} (hk : k ∈ c.2.keys) :
    (l ≠ [] → c.1 ≤ k) ∧ ∀ x ∈ r, k < x.1 := by
  constructor
  · intro hne
    obtain ⟨a, l, rfl⟩ := List.exists_cons_of_ne_nil hne
    exact hsep.after c (by simp) k hk
  · intro x hx
    exact (List.pairwise_cons.mp (List.pairwise_append.mp hsep.before).2.1).1 x hx k hk

omit [Inhabited K] in
/-- **A key is below the child that it is routed to**, or not in the tree. -/
theorem Route.mem_keys {l r : List (K × BTree K V h)} {c : K × BTree K V h}
    (hroute : Route key cs l c r) (hsep : Separated cs) {id parent : PageId} {maxSize : Nat} :
    key ∈ (node id maxSize parent cs).keys ↔ key ∈ c.2.keys := by
  obtain ⟨rfl, habove, hbelow⟩ := hroute
  rw [mem_keys_node]
  constructor
  · rintro ⟨x, hx, hkey⟩
    rcases List.mem_append.mp hx with hx | hx
    · -- to the left: below the separator of `c`
      have hlt := (List.pairwise_append.mp hsep.before).2.2 x hx c List.mem_cons_self key hkey
      exact absurd hlt (not_lt.mpr (habove (List.ne_nil_of_mem hx)))
    · rcases List.mem_cons.mp hx with rfl | hxr
      · exact hkey
      · have hmem : x ∈ (l ++ c :: r).tail := by
          cases l with
          | nil => exact hxr
          | cons a l => exact List.mem_append_right _ (List.mem_cons_of_mem _ hxr)
        exact absurd (hbelow x hxr) (not_lt.mpr (hsep.after x hmem key hkey))
  · intro hkey
    exact ⟨c, by simp, hkey⟩

end Order

end BTree

end OneBase
