import OneBase.Index.TreeShape

/-!
# What `Insert` does to the tree

A subtree into which an entry is inserted becomes one subtree, or two with a separator
between them. `Grows` says that these are as good as the old one and have its entries
and the new one. The parent puts them in the place of the old one, and may have to split
in turn.
-/

namespace OneBase

namespace BTree

variable {K V : Type} [LinearOrder K] {h : Nat}

/-! ## Separators -/

namespace Separated

variable {cs l r : List (K × BTree K V h)}

theorem append_left (hsep : Separated (l ++ r)) : Separated l where
  increasing := by
    cases l with
    | nil => exact .nil
    | cons a l => exact (List.pairwise_append.mp hsep.increasing).1
  before := (List.pairwise_append.mp hsep.before).1
  after := by
    cases l with
    | nil => exact fun _ hc => absurd hc List.not_mem_nil
    | cons a l => exact fun c hc => hsep.after c (List.mem_append_left _ hc)

/-- The key of slot 0 does not matter. -/
theorem append_right {c : K × BTree K V h} (hsep : Separated (l ++ c :: r)) (k : K) :
    Separated ((k, c.2) :: r) := by
  have hafter : ∀ x ∈ r, ∀ k ∈ x.2.keys, x.1 ≤ k := by
    cases l with
    | nil => exact hsep.after
    | cons a l =>
      exact fun x hx => hsep.after x (List.mem_append_right _ (List.mem_cons_of_mem _ hx))
  have hincreasing : Increasing r := by
    cases l with
    | nil => exact hsep.increasing
    | cons a l => exact (List.pairwise_cons.mp (List.pairwise_append.mp hsep.increasing).2.1).2
  obtain ⟨hhead, htail⟩ := List.pairwise_cons.mp (List.pairwise_append.mp hsep.before).2.1
  exact ⟨hincreasing, List.pairwise_cons.mpr ⟨hhead, htail⟩, hafter⟩

/-- Only the keys below the children matter. -/
theorem map {f : K × BTree K V h → K × BTree K V h} (hkey : ∀ c, (f c).1 = c.1)
    (hkeys : ∀ c, (f c).2.keys = c.2.keys) (hsep : Separated cs) : Separated (cs.map f) where
  increasing := by
    rw [← List.map_tail, Increasing, List.pairwise_map]
    exact hsep.increasing.imp fun hab => by rwa [hkey, hkey]
  before := by
    rw [List.pairwise_map]
    exact hsep.before.imp fun hab => by rwa [hkey, hkeys]
  after := by
    rw [← List.map_tail]
    intro c hc
    obtain ⟨c', hc', rfl⟩ := List.mem_map.mp hc
    rw [hkey, hkeys]
    exact hsep.after c' hc'

/-- **A child is replaced** by children with separators between them. Every key below them
and every separator lies where the keys below the child may lie. -/
theorem replace {c : K × BTree K V h} {t : BTree K V h} {more : List (K × BTree K V h)}
    (hsep : Separated (l ++ c :: r)) (hnew : Separated ((c.1, t) :: more))
    (hkeys : ∀ x ∈ (c.1, t) :: more, ∀ k ∈ x.2.keys, (l ≠ [] → c.1 ≤ k) ∧ ∀ y ∈ r, k < y.1)
    (hseps : ∀ x ∈ more, (l ≠ [] → c.1 < x.1) ∧ ∀ y ∈ r, x.1 < y.1) :
    Separated (l ++ ((c.1, t) :: more ++ r)) := by
  have hmore : Increasing more := hnew.increasing
  obtain ⟨hbl, hbcr, hblc⟩ := List.pairwise_append.mp hsep.before
  obtain ⟨-, hbr⟩ := List.pairwise_cons.mp hbcr
  have hbefore : (l ++ ((c.1, t) :: more ++ r)).Pairwise fun a b => ∀ k ∈ a.2.keys, k < b.1 := by
    refine List.pairwise_append.mpr ⟨hbl, List.pairwise_append.mpr ⟨hnew.before, hbr, ?_⟩, ?_⟩
    · exact fun x hx y hy k hk => (hkeys x hx k hk).2 y hy
    · intro a ha b hb k hk
      have hlt := hblc a ha c List.mem_cons_self k hk
      rcases List.mem_append.mp hb with hb | hb
      · rcases List.mem_cons.mp hb with rfl | hb
        · exact hlt
        · exact hlt.trans ((hseps b hb).1 (List.ne_nil_of_mem ha))
      · exact hblc a ha b (List.mem_cons_of_mem _ hb) k hk
  cases l with
  | nil =>
    have hir : Increasing r := hsep.increasing
    refine ⟨?_, hbefore, ?_⟩
    · exact List.pairwise_append.mpr ⟨hmore, hir, fun x hx y hy => (hseps x hx).2 y hy⟩
    · intro x hx
      rcases List.mem_append.mp hx with hx | hx
      · exact hnew.after x hx
      · exact hsep.after x hx
  | cons a l =>
    have hne : a :: l ≠ [] := List.cons_ne_nil a l
    obtain ⟨hil, hicr, hilc⟩ := List.pairwise_append.mp hsep.increasing
    obtain ⟨hic, hir⟩ := List.pairwise_cons.mp hicr
    refine ⟨?_, hbefore, ?_⟩
    · refine List.pairwise_append.mpr ⟨hil, List.pairwise_append.mpr ⟨?_, hir, ?_⟩, ?_⟩
      · exact List.pairwise_cons.mpr ⟨fun x hx => (hseps x hx).1 hne, hmore⟩
      · intro x hx y hy
        rcases List.mem_cons.mp hx with rfl | hx
        · exact hic y hy
        · exact (hseps x hx).2 y hy
      · intro b hb x hx
        have hlt := hilc b hb c List.mem_cons_self
        rcases List.mem_append.mp hx with hx | hx
        · rcases List.mem_cons.mp hx with rfl | hx
          · exact hlt
          · exact lt_trans hlt ((hseps x hx).1 hne)
        · exact hilc b hb x (List.mem_cons_of_mem _ hx)
    · intro x hx k hk
      rcases List.mem_append.mp hx with hx | hx
      · exact hsep.after x (List.mem_append_left _ hx) k hk
      · rcases List.mem_append.mp hx with hx | hx
        · rcases List.mem_cons.mp hx with rfl | hx'
          · exact (hkeys _ hx k hk).1 hne
          · exact hnew.after x hx' k hk
        · exact hsep.after x (List.mem_append_right _ (List.mem_cons_of_mem _ hx)) k hk

/-- Children with keys: their separators lie where the keys do. -/
theorem replace_of_keys {c : K × BTree K V h} {t : BTree K V h} {more : List (K × BTree K V h)}
    (hsep : Separated (l ++ c :: r)) (hnew : Separated ((c.1, t) :: more))
    (hkeys : ∀ x ∈ (c.1, t) :: more, ∀ k ∈ x.2.keys, (l ≠ [] → c.1 ≤ k) ∧ ∀ y ∈ r, k < y.1)
    (hne : ∀ x ∈ (c.1, t) :: more, x.2.entries ≠ []) :
    Separated (l ++ ((c.1, t) :: more ++ r)) := by
  have hkey : ∀ x ∈ (c.1, t) :: more, ∃ k, k ∈ x.2.keys := by
    intro x hx
    obtain ⟨e, he⟩ := List.exists_mem_of_ne_nil _ (hne x hx)
    exact ⟨e.1, List.mem_map_of_mem he⟩
  refine hsep.replace hnew hkeys fun x hx => ⟨fun hl => ?_, fun y hy => ?_⟩
  · obtain ⟨k, hk⟩ := hkey _ List.mem_cons_self
    have hlt := (List.pairwise_cons.mp hnew.before).1 x hx k hk
    exact ((hkeys _ List.mem_cons_self k hk).1 hl).trans_lt hlt
  · obtain ⟨k, hk⟩ := hkey x (List.mem_cons_of_mem _ hx)
    exact (hnew.after x hx k hk).trans_lt ((hkeys x (List.mem_cons_of_mem _ hx) k hk).2 y hy)

end Separated

/-! ## Growing -/

/-- **An entry was inserted** into the subtree `t` at the slot with the key `k₀`; the
children `new` stand in its place. -/
structure Grows (lm im : Nat) (key : K) (value : V) (k₀ : K) (t : BTree K V h)
    (new : List (K × BTree K V h)) : Prop where
  head : ∃ t₁ more, new = (k₀, t₁) :: more ∧ t₁.id = t.id
  parent : ∀ c ∈ new, c.2.parent = t.parent
  links : ∀ c ∈ new, c.2.Links
  sized : ∀ c ∈ new, c.2.Fits ∧ c.2.Sized lm im
  separated : Separated new
  ordered : ∀ c ∈ new, c.2.Ordered
  entries : (new.flatMap fun c => c.2.entries).Perm ((key, value) :: t.entries)
  chain : ∀ next, Chained t.chain next → Chained (new.flatMap fun c => c.2.chain) next
  first : ∀ next, firstId (new.flatMap fun c => c.2.chain) next = firstId t.chain next

/-- An entry was inserted below the children `cs` of the page `id`; its children are now
`cs'`. -/
structure GrownChildren (lm im : Nat) (key : K) (value : V) (id : PageId)
    (cs cs' : List (K × BTree K V h)) : Prop where
  links : ∀ c ∈ cs', c.2.parent = id ∧ c.2.Links
  sized : ∀ c ∈ cs', c.2.Fits ∧ c.2.Sized lm im
  separated : Separated cs'
  ordered : ∀ c ∈ cs', c.2.Ordered
  entries : (cs'.flatMap fun c => c.2.entries).Perm
    ((key, value) :: cs.flatMap fun c => c.2.entries)
  chain : ∀ next, Chained (cs.flatMap fun c => c.2.chain) next →
    Chained (cs'.flatMap fun c => c.2.chain) next
  first : ∀ next, firstId (cs'.flatMap fun c => c.2.chain) next =
    firstId (cs.flatMap fun c => c.2.chain) next

theorem Grows.mem_keys {lm im : Nat} {key : K} {value : V} {k₀ : K} {t : BTree K V h}
    {new : List (K × BTree K V h)} (hgrows : Grows lm im key value k₀ t new)
    {c : K × BTree K V h} (hc : c ∈ new) {k : K} (hk : k ∈ c.2.keys) : k = key ∨ k ∈ t.keys := by
  obtain ⟨e, he, rfl⟩ := List.mem_map.mp hk
  have hmem := hgrows.entries.mem_iff.mp (List.mem_flatMap.mpr ⟨c, hc, he⟩)
  rcases List.mem_cons.mp hmem with rfl | hmem
  · exact .inl rfl
  · exact .inr (List.mem_map_of_mem hmem)

section Leaf

variable {lm im : Nat} {key : K} {value : V} {id : PageId} {page : LeafPage K V}
  {l r : List (K × V)}

/-- The entries with the new one in its place. -/
theorem increasing_insert (hinc : Increasing (l ++ r)) (hl : ∀ e ∈ l, e.1 < key)
    (hr : ∀ e ∈ r, key < e.1) : Increasing (l ++ (key, value) :: r) := by
  obtain ⟨hincl, hincr, hlr⟩ := List.pairwise_append.mp hinc
  refine List.pairwise_append.mpr ⟨hincl, List.pairwise_cons.mpr ⟨hr, hincr⟩, fun a ha b hb => ?_⟩
  rcases List.mem_cons.mp hb with rfl | hb
  · exact hl a ha
  · exact hlr a ha b hb

/-- **The leaf has room.** -/
theorem grows_leaf (hmax : page.maxSize = lm) (harray : page.array = l ++ r)
    (hinc : Increasing page.array) (hl : ∀ e ∈ l, e.1 < key) (hr : ∀ e ∈ r, key < e.1)
    (hfits : (leaf id { page with array := l ++ (key, value) :: r }).Fits) (k₀ : K) :
    Grows lm im key value k₀ (leaf id page)
      [(k₀, leaf id { page with array := l ++ (key, value) :: r })] where
  head := ⟨_, [], rfl, rfl⟩
  parent := fun c hc => by
    rw [List.mem_singleton.mp hc]
    rfl
  links := fun c hc => by
    rw [List.mem_singleton.mp hc]
    trivial
  sized := fun c hc => by
    rw [List.mem_singleton.mp hc]
    exact ⟨hfits, hmax⟩
  separated := ⟨.nil, List.pairwise_singleton _ _, fun _ hc => absurd hc List.not_mem_nil⟩
  ordered := fun c hc => by
    rw [List.mem_singleton.mp hc]
    exact increasing_insert (harray ▸ hinc) hl hr
  entries := by
    rw [List.flatMap_singleton, entries_leaf, entries_leaf, harray]
    exact List.perm_middle
  chain := fun _ hchain => hchain
  first := fun _ => rfl

/-- Two leaves, and the key of the first entry on the right between them. -/
theorem separated_leaves {ia ib : PageId} {pa pb : LeafPage K V} {x : K × V} {b : List (K × V)}
    (hb : pb.array = x :: b) (hinc : Increasing (pa.array ++ pb.array)) (k₀ : K) :
    Separated [(k₀, leaf ia pa), (x.1, leaf ib pb)] := by
  obtain ⟨-, hincb, hab⟩ := List.pairwise_append.mp hinc
  refine ⟨List.pairwise_singleton _ _, ?_, fun c hc k hk => ?_⟩
  · refine List.pairwise_cons.mpr ⟨fun c hc k hk => ?_, List.pairwise_singleton _ _⟩
    rw [List.mem_singleton.mp hc]
    rw [keys, entries_leaf] at hk
    obtain ⟨e, he, rfl⟩ := List.mem_map.mp hk
    exact hab e he x (hb ▸ List.mem_cons_self)
  · rw [List.mem_singleton.mp hc] at hk ⊢
    rw [keys, entries_leaf] at hk
    obtain ⟨e, he, rfl⟩ := List.mem_map.mp hk
    rw [hb] at he hincb
    rcases List.mem_cons.mp he with rfl | he
    · exact le_rfl
    · exact ((List.pairwise_cons.mp hincb).1 e he).le

/-- **The leaf is split** before the entry `x`, whose key goes up. -/
theorem grows_leaf_split {a b : List (K × V)} {x : K × V} (hmax : page.maxSize = lm)
    (harray : page.array = l ++ r) (hinc : Increasing page.array) (hl : ∀ e ∈ l, e.1 < key)
    (hr : ∀ e ∈ r, key < e.1) (hsplit : l ++ (key, value) :: r = a ++ x :: b)
    (ha : lm / 2 ≤ a.length) (ha' : a.length ≤ lm) (hb : lm / 2 ≤ b.length + 1)
    (hb' : b.length + 1 ≤ lm) (k₀ : K) (new : PageId) :
    Grows lm im key value k₀ (leaf id page)
      [(k₀, leaf id { page with nextPageId := new, array := a }),
        (x.1, leaf new ⟨lm, page.parentPageId, page.nextPageId, x :: b⟩)] := by
  have hinc' : Increasing (a ++ x :: b) := hsplit ▸ increasing_insert (harray ▸ hinc) hl hr
  obtain ⟨hinca, hincb, -⟩ := List.pairwise_append.mp hinc'
  refine ⟨⟨_, _, rfl, rfl⟩, ?_, ?_, ?_, separated_leaves rfl hinc' k₀, ?_, ?_,
    fun next hchain => ?_, fun next => rfl⟩
  · simp only [List.forall_mem_cons]
    exact ⟨rfl, rfl, fun _ hc => absurd hc List.not_mem_nil⟩
  · simp only [List.forall_mem_cons]
    exact ⟨trivial, trivial, fun _ hc => absurd hc List.not_mem_nil⟩
  · simp only [List.forall_mem_cons]
    refine ⟨⟨fits_leaf.mpr ?_, hmax⟩, ⟨fits_leaf.mpr ⟨hb, hb'⟩, rfl⟩,
      fun _ hc => absurd hc List.not_mem_nil⟩
    rw [hmax]
    exact ⟨ha, ha'⟩
  · simp only [List.forall_mem_cons]
    exact ⟨hinca, hincb, fun _ hc => absurd hc List.not_mem_nil⟩
  · simp only [List.flatMap_cons, List.flatMap_nil, List.append_nil, entries_leaf]
    rw [← hsplit, harray]
    exact List.perm_middle
  · exact ⟨rfl, hchain.1, trivial⟩

end Leaf

section Inner

variable {lm im : Nat} {key : K} {value : V} {id parent : PageId}
  {cs cs' l r new : List (K × BTree K V h)} {c : K × BTree K V h}

/-- **The parent puts the children in the place of the old one.** -/
theorem Grows.children (hgrows : Grows lm im key value c.1 c.2 new) (hlm : 2 ≤ lm)
    (hroute : Route key cs l c r) (hlinks : ∀ c ∈ cs, c.2.parent = id ∧ c.2.Links)
    (hsized : ∀ c ∈ cs, c.2.Fits ∧ c.2.Sized lm im) (hsep : Separated cs)
    (hordered : ∀ c ∈ cs, c.2.Ordered) :
    GrownChildren lm im key value id cs (l ++ (new ++ r)) := by
  obtain ⟨rfl, habove, hbelow⟩ := hroute
  have hmem : ∀ x ∈ l ++ (new ++ r), x ∈ l ++ c :: r ∨ x ∈ new := by
    intro x hx
    rcases List.mem_append.mp hx with hx | hx
    · exact .inl (List.mem_append_left _ hx)
    · rcases List.mem_append.mp hx with hx | hx
      · exact .inr hx
      · exact .inl (List.mem_append_right _ (List.mem_cons_of_mem _ hx))
  have hc : c ∈ l ++ c :: r := List.mem_append_right _ List.mem_cons_self
  obtain ⟨t₁, more, hnew, -⟩ := hgrows.head
  -- the keys below the new children are the key and keys below the old child
  have hkeys : ∀ x ∈ new, ∀ k ∈ x.2.keys, (l ≠ [] → c.1 ≤ k) ∧ ∀ y ∈ r, k < y.1 := by
    intro x hx k hk
    rcases hgrows.mem_keys hx hk with rfl | hk
    · exact ⟨habove, hbelow⟩
    · exact hsep.between hk
  refine ⟨fun x hx => ?_, fun x hx => ?_, ?_, fun x hx => ?_, ?_, fun next hchain => ?_,
    fun next => ?_⟩
  · rcases hmem x hx with hx | hx
    · exact hlinks x hx
    · exact ⟨(hgrows.parent x hx).trans (hlinks c hc).1, hgrows.links x hx⟩
  · rcases hmem x hx with hx | hx
    · exact hsized x hx
    · exact hgrows.sized x hx
  · subst hnew
    refine hsep.replace_of_keys hgrows.separated hkeys fun x hx => ?_
    exact entries_ne_nil hlm (hgrows.sized x hx).2 (hgrows.sized x hx).1
  · rcases hmem x hx with hx | hx
    · exact hordered x hx
    · exact hgrows.ordered x hx
  · simp only [List.flatMap_append, List.flatMap_cons]
    have hperm := (hgrows.entries.append_right (r.flatMap fun c => c.2.entries)).append_left
      (l.flatMap fun c => c.2.entries)
    exact hperm.trans List.perm_middle
  · simp only [List.flatMap_append, List.flatMap_cons, chained_append, firstId_append] at hchain ⊢
    obtain ⟨hl, hchain, hr⟩ := hchain
    rw [hgrows.first]
    exact ⟨hl, hgrows.chain _ hchain, hr⟩
  · simp only [List.flatMap_append, List.flatMap_cons, firstId_append, hgrows.first]

/-- **The page has room.** -/
theorem GrownChildren.fits (hgrown : GrownChildren lm im key value id cs cs')
    (hmin : (im + 1) / 2 ≤ cs'.length) (hmax : cs'.length ≤ im) (k₀ : K) :
    Grows lm im key value k₀ (node id im parent cs) [(k₀, node id im parent cs')] where
  head := ⟨_, [], rfl, rfl⟩
  parent := fun c hc => by
    rw [List.mem_singleton.mp hc]
    rfl
  links := fun c hc => by
    rw [List.mem_singleton.mp hc]
    exact hgrown.links
  sized := fun c hc => by
    rw [List.mem_singleton.mp hc]
    refine ⟨fits_node.mpr ⟨hmin, hmax⟩, sized_node.mpr ⟨rfl, ?_, hgrown.sized⟩⟩
    -- a page without children has no entries
    rintro rfl
    exact absurd hgrown.entries.length_eq (by simp)
  separated := ⟨.nil, List.pairwise_singleton _ _, fun _ hc => absurd hc List.not_mem_nil⟩
  ordered := fun c hc => by
    rw [List.mem_singleton.mp hc]
    exact ⟨hgrown.separated, hgrown.ordered⟩
  entries := by
    simpa only [List.flatMap_singleton, entries_node] using hgrown.entries
  chain := fun next => by
    simpa only [List.flatMap_singleton, chain_node] using hgrown.chain next
  first := fun next => by
    simpa only [List.flatMap_singleton, chain_node] using hgrown.first next

/-- The children after the loop that sets their parent. -/
def adopt (p : PageId) (cs : List (K × BTree K V h)) : List (K × BTree K V h) :=
  cs.map fun c => (c.1, c.2.setParent p)

omit [LinearOrder K] in
@[simp] theorem slots_adopt {p : PageId} : slots (adopt p cs) = slots cs := by
  simp [slots, adopt, Function.comp_def]

omit [LinearOrder K] in
/-- The store after the loop that sets the parent of the children. -/
theorem rep_adopt {store store' : PageId → Option (TreePage K V)} {p : PageId}
    (hrep : ∀ c ∈ cs, c.2.Rep store) (hnodup : (cs.flatMap fun c => c.2.ids).Nodup)
    (hstore : ∀ q ∈ cs.flatMap (fun c => c.2.ids), store' q =
      if q ∈ cs.map (fun c => c.2.id) then (store q).map (TreePage.setParentPageId p)
      else store q) : ∀ c ∈ adopt p cs, c.2.Rep store' := by
  intro x hx
  obtain ⟨c, hc, rfl⟩ := List.mem_map.mp hx
  have hmem : ∀ q ∈ c.2.ids, q ∈ cs.flatMap fun c => c.2.ids := fun q hq =>
    List.mem_flatMap.mpr ⟨c, hc, hq⟩
  refine (hrep c hc).setParent ((List.nodup_flatMap.mp hnodup).1 c hc) ?_ fun q hq hne => ?_
  · rw [hstore _ (hmem _ (id_mem_ids _)), if_pos (List.mem_map.mpr ⟨c, hc, rfl⟩)]
  · rw [hstore q (hmem q hq), if_neg]
    intro hroot
    -- the root of another child is not below this one
    obtain ⟨c', hc', rfl⟩ := List.mem_map.mp hroot
    exact hne (by rw [eq_of_mem_ids hnodup hc' hc (id_mem_ids _) hq])

/-- **The page is split** before the child `x`, whose separator goes up. -/
theorem GrownChildren.split {a b : List (K × BTree K V h)} {x : K × BTree K V h}
    (hgrown : GrownChildren lm im key value id cs (a ++ x :: b)) (ha : (im + 1) / 2 ≤ a.length)
    (ha' : a.length ≤ im) (hb : (im + 1) / 2 ≤ b.length + 1) (hb' : b.length + 1 ≤ im)
    (him : 1 ≤ im) (k₀ k₁ : K) (new : PageId) :
    Grows lm im key value k₀ (node id im parent cs)
      [(k₀, node id im parent a), (x.1, node new im parent (adopt new ((k₁, x.2) :: b)))] := by
  have hne : a ≠ [] := by
    rintro rfl
    rw [List.length_nil] at ha
    omega
  have hmem : ∀ c ∈ (k₁, x.2) :: b, ∃ c' ∈ a ++ x :: b, c.2 = c'.2 := by
    intro c hc
    rcases List.mem_cons.mp hc with rfl | hc
    · exact ⟨x, by simp, rfl⟩
    · exact ⟨c, by simp [hc], rfl⟩
  have hadopt : ∀ c ∈ adopt new ((k₁, x.2) :: b),
      ∃ c' ∈ a ++ x :: b, c.2 = c'.2.setParent new := by
    intro c hc
    obtain ⟨c', hc', rfl⟩ := List.mem_map.mp hc
    obtain ⟨c'', hc'', heq⟩ := hmem c' hc'
    exact ⟨c'', hc'', congrArg (setParent new) heq⟩
  have hkeys : ∀ k ∈ (node new im parent (adopt new ((k₁, x.2) :: b))).keys,
      ∃ c ∈ x :: b, k ∈ c.2.keys := by
    intro k hk
    obtain ⟨c, hc, hk⟩ := mem_keys_node.mp hk
    obtain ⟨c', hc', rfl⟩ := List.mem_map.mp hc
    rw [keys_setParent] at hk
    rcases List.mem_cons.mp hc' with rfl | hc'
    · exact ⟨x, List.mem_cons_self, hk⟩
    · exact ⟨c', List.mem_cons_of_mem _ hc', hk⟩
  have htail : ∀ c ∈ x :: b, c ∈ (a ++ x :: b).tail := by
    obtain ⟨a₀, a, rfl⟩ := List.exists_cons_of_ne_nil hne
    exact fun c hc => List.mem_append_right _ hc
  have hsepright : Separated (adopt new ((k₁, x.2) :: b)) :=
    (hgrown.separated.append_right k₁).map (fun _ => rfl) fun _ => keys_setParent
  obtain ⟨hincl, hincr, hinc⟩ := List.pairwise_append.mp hgrown.separated.before
  refine ⟨⟨_, _, rfl, rfl⟩, ?_, ?_, ?_, ⟨List.pairwise_singleton _ _, ?_, ?_⟩, ?_, ?_,
    fun next => ?_,
    fun next => ?_⟩
  · simp only [List.forall_mem_cons]
    exact ⟨rfl, rfl, fun _ hc => absurd hc List.not_mem_nil⟩
  · simp only [List.forall_mem_cons]
    refine ⟨fun c hc => hgrown.links c (List.mem_append_left _ hc), fun c hc => ?_,
      fun _ hc => absurd hc List.not_mem_nil⟩
    obtain ⟨c', hc', heq⟩ := hadopt c hc
    rw [heq, parent_setParent, links_setParent]
    exact ⟨rfl, (hgrown.links c' hc').2⟩
  · simp only [List.forall_mem_cons]
    refine ⟨⟨fits_node.mpr ⟨ha, ha'⟩, rfl, hne, fun c hc => ?_⟩,
      ⟨fits_node.mpr ⟨?_, ?_⟩, rfl, ?_, fun c hc => ?_⟩, fun _ hc => absurd hc List.not_mem_nil⟩
    · exact hgrown.sized c (List.mem_append_left _ hc)
    · simpa [adopt] using hb
    · simpa [adopt] using hb'
    · simp [adopt]
    · obtain ⟨c', hc', heq⟩ := hadopt c hc
      rw [heq, fits_setParent, sized_setParent]
      exact hgrown.sized c' hc'
  · -- keys on the left are below the separator that goes up
    refine List.pairwise_cons.mpr ⟨fun c hc k hk => ?_, List.pairwise_singleton _ _⟩
    rw [List.mem_singleton.mp hc]
    obtain ⟨c', hc', hk⟩ := mem_keys_node.mp hk
    exact hinc c' hc' x List.mem_cons_self k hk
  · intro c hc k hk
    rw [List.mem_singleton.mp hc] at hk ⊢
    obtain ⟨c', hc', hk⟩ := hkeys k hk
    have hle := hgrown.separated.after c' (htail c' hc') k hk
    rcases List.mem_cons.mp hc' with rfl | hcb
    · exact hle
    · have hlt : x.1 < c'.1 := by
        obtain ⟨a₀, a, rfl⟩ := List.exists_cons_of_ne_nil hne
        have hinc := (List.pairwise_append.mp hgrown.separated.increasing).2.1
        exact (List.pairwise_cons.mp hinc).1 c' hcb
      exact hlt.le.trans hle
  · simp only [List.forall_mem_cons]
    refine ⟨⟨hgrown.separated.append_left, fun c hc =>
      hgrown.ordered c (List.mem_append_left _ hc)⟩,
      ⟨hsepright, fun c hc => ?_⟩, fun _ hc => absurd hc List.not_mem_nil⟩
    obtain ⟨c', hc', heq⟩ := hadopt c hc
    rw [heq, ordered_setParent]
    exact hgrown.ordered c' hc'
  · have hperm := hgrown.entries
    simpa only [List.flatMap_cons, List.flatMap_nil, List.append_nil, entries_node, adopt,
      List.flatMap_map, List.flatMap_append, List.map_cons, entries_setParent] using hperm
  · have hchain := hgrown.chain next
    simpa only [List.flatMap_cons, List.flatMap_nil, List.append_nil, chain_node, adopt,
      List.flatMap_map, List.flatMap_append, List.map_cons, chain_setParent] using hchain
  · have hfirst := hgrown.first next
    simpa only [List.flatMap_cons, List.flatMap_nil, List.append_nil, chain_node, adopt,
      List.flatMap_map, List.flatMap_append, List.map_cons, chain_setParent] using hfirst

/-- **The root was split**: a new root above the two halves. -/
theorem Grows.newRoot {t : BTree K V h} {t₁ t₂ : BTree K V h} {k₀ k₁ : K}
    (hgrows : Grows lm im key value k₀ t [(k₀, t₁), (k₁, t₂)]) (him : 2 ≤ im) (root : PageId) :
    let t' := node root im invalidPageId (adopt root [(k₀, t₁), (k₁, t₂)])
    t'.Links ∧ t'.Sized lm im ∧ t'.page.getSize ≤ t'.page.getMaxSize ∧ t'.Ordered ∧
      t'.entries.Perm ((key, value) :: t.entries) ∧
      ∀ next, Chained t.chain next → Chained t'.chain next := by
  have hadopt : ∀ c ∈ adopt root [(k₀, t₁), (k₁, t₂)],
      ∃ c' ∈ [(k₀, t₁), (k₁, t₂)], c.2 = c'.2.setParent root := by
    intro c hc
    obtain ⟨c', hc', rfl⟩ := List.mem_map.mp hc
    exact ⟨c', hc', rfl⟩
  refine ⟨fun c hc => ?_, ⟨rfl, by simp [adopt], fun c hc => ?_⟩, him,
    ⟨hgrows.separated.map (fun _ => rfl) fun _ => keys_setParent, fun c hc => ?_⟩, ?_,
    fun next hchain => ?_⟩
  · obtain ⟨c', hc', heq⟩ := hadopt c hc
    rw [heq, parent_setParent, links_setParent]
    exact ⟨rfl, hgrows.links c' hc'⟩
  · obtain ⟨c', hc', heq⟩ := hadopt c hc
    rw [heq, fits_setParent, sized_setParent]
    exact hgrows.sized c' hc'
  · obtain ⟨c', hc', heq⟩ := hadopt c hc
    rw [heq, ordered_setParent]
    exact hgrows.ordered c' hc'
  · simpa only [entries_node, adopt, List.flatMap_map, entries_setParent] using hgrows.entries
  · simpa only [chain_node, adopt, List.flatMap_map, chain_setParent] using
      hgrows.chain next hchain

end Inner

end BTree

end OneBase
