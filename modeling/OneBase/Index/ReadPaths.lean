import Mathlib.Data.Int.Order.Basic
import OneBase.Index.TreeStore

/-!
# The read paths

`GetValue` and `Begin` descend to a leaf, an iterator follows the leaf links. The descent
splits the leaves at the one that it reaches: keys to the left of it are below the key that
is looked for, keys to the right of it are above.

- `Readable`: what the read paths need of the tree.
- `findLeaf_lookup`, `findLeaf_first`: the descents.
- `walk_leaves`: the walk over the leaves.
- `walk_begin_getValue`: `GetValue` and the walk from `Begin()` agree.
- `walk_beginAt_iff`: where iteration from a key misses entries.
-/

namespace OneBase

namespace BTree

variable {K V : Type} {h : Nat}

/-- Every internal page has a child. -/
def HasChildren : {h : Nat} → BTree K V h → Prop
  | 0, _ => True
  | _ + 1, node _ _ _ cs => cs ≠ [] ∧ ∀ c ∈ cs, HasChildren c.2

theorem Sized.hasChildren {lm im : Nat} : ∀ {h : Nat} {t : BTree K V h},
    t.Sized lm im → t.HasChildren
  | 0, _, _ => trivial
  | _ + 1, t, hsized => by
    obtain ⟨id, m, p, cs, rfl⟩ := t.exists_node
    obtain ⟨-, hne, hchildren⟩ := sized_node.mp hsized
    exact ⟨hne, fun c hc => (hchildren c hc).2.hasChildren⟩

/-- The leaf page that the descent for a key reaches. -/
def leafOf [LinearOrder K] [Inhabited K] (key : K) : {h : Nat} → BTree K V h → Option (LeafPage K V)
  | 0, leaf _ page => some page
  | _ + 1, node _ _ _ cs =>
    match cs[slotOf key cs]? with
    | none => none
    | some c => leafOf key c.2

theorem leafOf_node [LinearOrder K] [Inhabited K] {key : K} {id p : PageId} {m : Nat}
    {l r : List (K × BTree K V h)} {c : K × BTree K V h}
    (hslot : slotOf key (l ++ c :: r) = l.length) :
    leafOf key (node id m p (l ++ c :: r)) = leafOf key c.2 := by
  simp only [leafOf, getElem?_slotOf hslot]

theorem leaves_node {id p : PageId} {m : Nat} {cs : List (K × BTree K V h)} :
    (node id m p cs).leaves = cs.flatMap fun c => c.2.leaves := rfl

/-- The leaves of the tree are pages of it. -/
theorem mem_pages_of_mem_leaves {l : PageId × LeafPage K V} :
    ∀ {h : Nat} {t : BTree K V h}, l ∈ t.leaves → (l.1, .leaf l.2) ∈ t.pages
  | 0, t, hl => by
    obtain ⟨id, page, rfl⟩ := t.exists_leaf
    rw [List.mem_singleton.mp hl]
    exact List.mem_cons_self
  | h + 1, t, hl => by
    obtain ⟨id, m, p, cs, rfl⟩ := t.exists_node
    obtain ⟨c, hc, hl⟩ := List.mem_flatMap.mp hl
    exact List.mem_cons_of_mem _ (List.mem_flatMap.mpr ⟨c, hc, mem_pages_of_mem_leaves hl⟩)

/-- A tree whose pages are not underfull has no empty leaf. -/
theorem Sized.leaf_ne_nil {lm im : Nat} (hlm : 2 ≤ lm) {l : PageId × LeafPage K V} :
    ∀ {h : Nat} {t : BTree K V h}, t.Sized lm im → t.Fits → l ∈ t.leaves → l.2.array ≠ []
  | 0, t, hsized, hfits, hl => by
    obtain ⟨id, page, rfl⟩ := t.exists_leaf
    have hne := entries_ne_nil hlm hsized hfits
    rw [List.mem_singleton.mp hl]
    rwa [entries_leaf] at hne
  | h + 1, t, hsized, hfits, hl => by
    obtain ⟨id, m, p, cs, rfl⟩ := t.exists_node
    obtain ⟨c, hc, hl⟩ := List.mem_flatMap.mp hl
    obtain ⟨hfits', hsized'⟩ := (sized_node.mp hsized).2.2 c hc
    exact hsized'.leaf_ne_nil hlm hfits' hl

end BTree

namespace BPlusTree

open BTree

variable {K V : Type} [LinearOrder K] [Inhabited K] [Inhabited V] {h : Nat}

/-- **What the read paths need**: keys and separators are in order, no leaf is empty, and the
leaves are chained. -/
structure Readable (s : BPlusTree K V) (t : BTree K V h) : Prop where
  root : s.rootPageId = t.id
  rep : t.Rep s.pages
  valid : ∀ p ∈ t.ids, p ≠ invalidPageId
  children : t.HasChildren
  nonempty : ∀ l ∈ t.leaves, l.2.array ≠ []
  ordered : t.Ordered
  chained : Chained t.chain invalidPageId

omit [Inhabited K] [Inhabited V] in
theorem WellFormed.readable {s : BPlusTree K V} {t : BTree K V h} (hwf : s.WellFormed t)
    (hmin : t.RootMin) (hlm : 2 ≤ s.leafMaxSize) : s.Readable t := by
  refine ⟨hwf.root, hwf.rep, fun p hp heq => ?_, hwf.sized.hasChildren, fun l hl => ?_, hwf.ordered,
    hwf.chained⟩
  · have hneg := (hwf.alloc p hp).1
    rw [heq] at hneg
    exact absurd hneg (by decide)
  · cases h with
    | zero =>
      obtain ⟨id, page, rfl⟩ := t.exists_leaf
      rw [List.mem_singleton.mp hl]
      exact List.length_pos_iff.mp hmin
    | succ h =>
      obtain ⟨id, m, p, cs, rfl⟩ := t.exists_node
      obtain ⟨c, hc, hl⟩ := List.mem_flatMap.mp hl
      obtain ⟨hfits, hsized⟩ := (sized_node.mp hwf.sized).2.2 c hc
      exact hsized.leaf_ne_nil hlm hfits hl

/-! ## The descents -/

section Descent

omit [LinearOrder K] [Inhabited K] [Inhabited V] in
/-- The guards on the way down: the one on the child takes the place of the one on the page. -/
theorem descended_log {s : BPlusTree K V} {id p : PageId} {m : Nat} {cs : List (K × BTree K V h)}
    {c : K × BTree K V h} {kind : GuardKind} (hc : c ∈ cs) (hnodup : (node id m p cs).ids.Nodup)
    (hlog : s.log.Ok [(id, kind)]) :
    c.2.ids.Nodup ∧ (s.descended kind id c.2.id).log.Ok [(c.2.id, kind)] := by
  rw [ids_node, List.nodup_cons] at hnodup
  obtain ⟨hid, hnodup⟩ := hnodup
  have hne : c.2.id ≠ id := fun heq =>
    hid (List.mem_flatMap.mpr ⟨c, hc, heq ▸ id_mem_ids c.2⟩)
  have hacquired : GuardLog.Ok (.acquire c.2.id kind :: s.log) [(c.2.id, kind), (id, kind)] :=
    hlog.acquire fun g hg => by
      rw [List.mem_singleton.mp hg]
      exact hne.symm
  exact ⟨(List.nodup_flatMap.mp hnodup).1 c hc, hacquired.release_second hne⟩

omit [Inhabited V] in
/-- **The descent for a key** reaches the leaf that splits the leaves at the key. -/
theorem findLeaf_lookup (kind : GuardKind) (key : K) (d : Nat) : ∀ {h : Nat} {t : BTree K V h}
    {s : BPlusTree K V}, t.Rep s.pages → t.HasChildren → t.Ordered →
    ∃ log l id page r, s.findLeaf kind (·.lookup key) (d + h + 1) t.id = some (id, { s with log }) ∧
      t.leaves = l ++ (id, page) :: r ∧ leafOf key t = some page ∧
      (∀ x ∈ l, ∀ e ∈ x.2.array, e.1 < key) ∧ (∀ x ∈ r, ∀ e ∈ x.2.array, key < e.1) ∧
      (t.ids.Nodup → s.log.Ok [(t.id, kind)] → GuardLog.Ok log [(id, kind)])
  | 0, t, s, hrep, _, _ => by
    obtain ⟨id, page, rfl⟩ := t.exists_leaf
    exact ⟨s.log, [], id, page, [], findLeaf_leaf hrep.page _, rfl, rfl,
      fun _ hx => absurd hx List.not_mem_nil, fun _ hx => absurd hx List.not_mem_nil,
      fun _ hlog => hlog⟩
  | h + 1, t, s, hrep, hchildren, hordered => by
    obtain ⟨id, m, p, cs, rfl⟩ := t.exists_node
    obtain ⟨hpage, hreps⟩ := rep_node.mp hrep
    obtain ⟨hsep, hsub⟩ := ordered_node.mp hordered
    obtain ⟨l, c, r, hroute, hindex, hlookup⟩ := exists_route hsep hchildren.1 m p key
    obtain ⟨rfl, habove, hbelow⟩ := hroute
    have hc : c ∈ l ++ c :: r := List.mem_append_right _ List.mem_cons_self
    obtain ⟨log, l', id', page, r', hrun, hleaves, hleaf, hl, hr, hlog⟩ :=
      @findLeaf_lookup kind key d h c.2 (s.descended kind id c.2.id) (hreps c hc) (hchildren.2 c hc)
        (hsub c hc)
    refine ⟨log, (l.flatMap fun c => c.2.leaves) ++ l', id', page,
      r' ++ r.flatMap fun c => c.2.leaves, ?_, ?_, (leafOf_node hindex).trans hleaf, ?_, ?_, ?_⟩
    · show s.findLeaf kind (·.lookup key) (d + h + 1 + 1) id = _
      rw [findLeaf_node hpage, hlookup, hrun]
      rfl
    · rw [leaves_node, List.flatMap_append, List.flatMap_cons, hleaves]
      simp
    · intro x hx e he
      rcases List.mem_append.mp hx with hx | hx
      · -- to the left of the child: below its separator
        obtain ⟨c', hc', hx⟩ := List.mem_flatMap.mp hx
        have hmem : e.1 ∈ c'.2.keys := List.mem_map_of_mem (List.mem_flatMap.mpr ⟨x, hx, he⟩)
        have hlt := (List.pairwise_append.mp hsep.before).2.2 c' hc' c List.mem_cons_self e.1 hmem
        exact hlt.trans_le (habove (List.ne_nil_of_mem hc'))
      · exact hl x hx e he
    · intro x hx e he
      rcases List.mem_append.mp hx with hx | hx
      · exact hr x hx e he
      · -- to the right of the child: not below a separator that is above the key
        obtain ⟨c', hc', hx⟩ := List.mem_flatMap.mp hx
        have hmem : e.1 ∈ c'.2.keys := List.mem_map_of_mem (List.mem_flatMap.mpr ⟨x, hx, he⟩)
        have htail : c' ∈ (l ++ c :: r).tail := by
          cases l with
          | nil => exact hc'
          | cons a l => exact List.mem_append_right _ (List.mem_cons_of_mem _ hc')
        exact (hbelow c' hc').trans_le (hsep.after c' htail e.1 hmem)
    · intro hnodup hlog'
      obtain ⟨hnodup', hlog''⟩ := descended_log hc hnodup hlog'
      exact hlog hnodup' hlog''

omit [LinearOrder K] [Inhabited V] in
/-- **The descent of `Begin()`** reaches the first leaf. -/
theorem findLeaf_first (kind : GuardKind) (d : Nat) : ∀ {h : Nat} {t : BTree K V h}
    {s : BPlusTree K V}, t.Rep s.pages → t.HasChildren →
    ∃ log id page r, s.findLeaf kind (·.valueAt 0) (d + h + 1) t.id = some (id, { s with log }) ∧
      t.leaves = (id, page) :: r ∧
      (t.ids.Nodup → s.log.Ok [(t.id, kind)] → GuardLog.Ok log [(id, kind)])
  | 0, t, s, hrep, _ => by
    obtain ⟨id, page, rfl⟩ := t.exists_leaf
    exact ⟨s.log, id, page, [], findLeaf_leaf hrep.page _, rfl, fun _ hlog => hlog⟩
  | h + 1, t, s, hrep, hchildren => by
    obtain ⟨id, m, p, cs, rfl⟩ := t.exists_node
    obtain ⟨hpage, hreps⟩ := rep_node.mp hrep
    obtain ⟨hne, hchildren⟩ := hchildren
    obtain ⟨c, cs, rfl⟩ := List.exists_cons_of_ne_nil hne
    have hc : c ∈ c :: cs := List.mem_cons_self
    obtain ⟨log, id', page, r, hrun, hleaves, hlog⟩ :=
      @findLeaf_first kind d h c.2 (s.descended kind id c.2.id) (hreps c hc) (hchildren c hc)
    refine ⟨log, id', page, r ++ cs.flatMap fun c => c.2.leaves, ?_, ?_, fun hnodup hlog' => ?_⟩
    · show s.findLeaf kind (·.valueAt 0) (d + h + 1 + 1) id = _
      rw [findLeaf_node hpage]
      exact hrun
    · rw [leaves_node, List.flatMap_cons, hleaves]
      rfl
    · obtain ⟨hnodup', hlog''⟩ := descended_log hc hnodup hlog'
      exact hlog hnodup' hlog''

end Descent

/-! ## The walk over the leaves -/

section Walk

variable {s : BPlusTree K V} {it : BPlusTreeIterator} {page : LeafPage K V}

/-- A page is read: a guard is created and gives the page back. -/
def readPage (s : BPlusTree K V) (p : PageId) : BPlusTree K V :=
  (s.fetchPage p .read).drop p .read

omit [LinearOrder K] [Inhabited K] [Inhabited V] in
theorem readPage_log (hlog : s.log.Ok []) (p : PageId) : (s.readPage p).log.Ok [] :=
  (hlog.acquire fun _ hg => absurd hg List.not_mem_nil).release_head

omit [LinearOrder K] in
theorem deref_eq (hne : it.pageId ≠ invalidPageId) (hpage : s.pages it.pageId = some (.leaf page)) :
    s.deref it = some (page.array.getD it.index default, s.readPage it.pageId) := by
  simp [deref, hne, leafAt, fetchPage, hpage, readPage]

/-- The position after this one is on the next page, where the page has no more entries. -/
def nextPosition (page : LeafPage K V) (it : BPlusTreeIterator) : BPlusTreeIterator :=
  if page.array.length ≤ it.index + 1 then ⟨page.nextPageId, 0⟩ else ⟨it.pageId, it.index + 1⟩

omit [LinearOrder K] [Inhabited K] [Inhabited V] in
theorem next_eq (hne : it.pageId ≠ invalidPageId) (hpage : s.pages it.pageId = some (.leaf page)) :
    s.next it = some (nextPosition page it, s.readPage it.pageId) := by
  simp only [next, if_neg hne, leafAt, fetchPage, hpage, readPage, nextPosition,
    Option.bind_eq_bind,
    Option.bind_some, Option.pure_def]
  split
  · rfl
  · rfl

omit [LinearOrder K] in
theorem walk_end (s : BPlusTree K V) (fuel : Nat) :
    s.walk (fuel + 1) endIterator = some ([], s) := if_pos rfl

omit [LinearOrder K] in
theorem walk_step (hne : it.pageId ≠ invalidPageId) (hpage : s.pages it.pageId = some (.leaf page))
    {fuel : Nat} {rest : List (K × V)} {s' : BPlusTree K V}
    (hrest : ((s.readPage it.pageId).readPage it.pageId).walk fuel (nextPosition page it) =
      some (rest, s')) :
    s.walk (fuel + 1) it = some (page.array.getD it.index default :: rest, s') := by
  have hit : it ≠ endIterator := fun heq => hne (heq ▸ rfl)
  have hnext : (s.readPage it.pageId).next it = _ := next_eq hne hpage
  show (if it = endIterator then _ else _) = _
  rw [if_neg hit, deref_eq hne hpage]
  show ((s.readPage it.pageId).next it >>= _) = _
  rw [hnext]
  show (BPlusTree.walk fuel _ _ >>= _) = _
  rw [hrest]
  rfl

/-- Leaf pages that a walk can go over. -/
structure Linked (s : BPlusTree K V) (leaves : List (PageId × LeafPage K V)) : Prop where
  pages : ∀ l ∈ leaves, s.pages l.1 = some (.leaf l.2)
  valid : ∀ l ∈ leaves, l.1 ≠ invalidPageId
  nonempty : ∀ l ∈ leaves, l.2.array ≠ []
  chained : Chained (leaves.map fun l => (l.1, l.2.nextPageId)) invalidPageId

omit [LinearOrder K] [Inhabited K] [Inhabited V] in
/-- The leaves to the right. -/
theorem Linked.right {l r : List (PageId × LeafPage K V)} (hlinked : s.Linked (l ++ r)) :
    s.Linked r := by
  have hchained := hlinked.chained
  rw [List.map_append, chained_append] at hchained
  exact ⟨fun x hx => hlinked.pages x (List.mem_append_right _ hx),
    fun x hx => hlinked.valid x (List.mem_append_right _ hx),
    fun x hx => hlinked.nonempty x (List.mem_append_right _ hx), hchained.2⟩

omit [Inhabited K] [Inhabited V] in
theorem Readable.linked {t : BTree K V h} (hread : s.Readable t) : s.Linked t.leaves where
  pages := fun _ hl => hread.rep _ (mem_pages_of_mem_leaves hl)
  valid := fun _ hl => hread.valid _ (List.mem_map_of_mem (mem_pages_of_mem_leaves hl))
  nonempty := hread.nonempty
  chained := hread.chained

omit [LinearOrder K] [Inhabited K] [Inhabited V] in
/-- The log does not matter. -/
theorem Linked.readPage {leaves : List (PageId × LeafPage K V)} (hlinked : s.Linked leaves)
    (p : PageId) : (s.readPage p).Linked leaves :=
  ⟨hlinked.pages, hlinked.valid, hlinked.nonempty, hlinked.chained⟩

omit [LinearOrder K] in
/-- **The walk** from a position on a leaf reads the entries from there on and those of the
leaves to the right. -/
theorem walk_leaves (fuel : Nat) : ∀ {s : BPlusTree K V} {id : PageId} {page : LeafPage K V}
    {r : List (PageId × LeafPage K V)} {i : Nat}, s.Linked ((id, page) :: r) →
    i < page.array.length → (page.array.drop i ++ r.flatMap fun l => l.2.array).length < fuel →
    ∃ s', s.walk fuel ⟨id, i⟩ = some (page.array.drop i ++ r.flatMap fun l => l.2.array, s') := by
  induction fuel with
  | zero => exact fun _ _ hfuel => absurd hfuel (Nat.not_lt_zero _)
  | succ fuel ih =>
    intro s id page r i hlinked hi hfuel
    have hhead : (id, page) ∈ (id, page) :: r := List.mem_cons_self
    have hne : id ≠ invalidPageId := hlinked.valid _ hhead
    have hdrop : page.array.drop i = page.array.getD i default :: page.array.drop (i + 1) := by
      rw [List.drop_eq_getElem_cons hi, List.getD_eq_getElem?_getD, List.getElem?_eq_getElem hi,
        Option.getD_some]
    have hlinked' := (hlinked.readPage id).readPage id
    -- the walk from the next position
    suffices hrest : ∃ s', ((s.readPage id).readPage id).walk fuel (nextPosition page ⟨id, i⟩) =
        some (page.array.drop (i + 1) ++ r.flatMap fun l => l.2.array, s') by
      obtain ⟨s', hrest⟩ := hrest
      refine ⟨s', ?_⟩
      rw [hdrop]
      exact walk_step hne (hlinked.pages _ hhead) hrest
    rw [hdrop, List.cons_append, List.length_cons] at hfuel
    by_cases hlast : page.array.length ≤ i + 1
    · rw [nextPosition, if_pos hlast, List.drop_eq_nil_of_le hlast, List.nil_append]
      rw [List.drop_eq_nil_of_le hlast, List.nil_append] at hfuel
      have hnext : page.nextPageId = firstId (r.map fun l => (l.1, l.2.nextPageId)) invalidPageId :=
        hlinked.chained.1
      cases r with
      | nil =>
        obtain ⟨n, rfl⟩ : ∃ n, fuel = n + 1 := ⟨fuel - 1, by omega⟩
        rw [show page.nextPageId = invalidPageId from hnext]
        exact ⟨_, walk_end _ n⟩
      | cons l r =>
        rw [show page.nextPageId = l.1 from hnext]
        have hlinked₁ : ((s.readPage id).readPage id).Linked (l :: r) :=
          Linked.right (l := [(id, page)]) hlinked'
        have hpos := List.length_pos_iff.mpr (hlinked.nonempty l (by simp))
        obtain ⟨s', hrun⟩ := ih hlinked₁ hpos (by simpa using Nat.lt_of_succ_lt_succ hfuel)
        exact ⟨s', by simpa using hrun⟩
    · rw [nextPosition, if_neg hlast]
      exact ih hlinked' (Nat.lt_of_not_le hlast) (Nat.lt_of_succ_lt_succ hfuel)

end Walk

/-! ## The read paths agree -/

section Agree

variable {s : BPlusTree K V} {t : BTree K V h} {fuel : Nat}

omit [Inhabited K] [Inhabited V] in
theorem Readable.isEmpty (hread : s.Readable t) : s.isEmpty = false := by
  simp [BPlusTree.isEmpty, hread.root, hread.valid t.id (id_mem_ids t)]

omit [LinearOrder K] [Inhabited K] [Inhabited V] in
/-- The root is fetched. -/
theorem fetched_log (hlog : s.log.Ok []) {p : PageId} {kind : GuardKind} :
    (s.fetchPage p kind).log.Ok [(p, kind)] :=
  hlog.acquire fun _ hg => absurd hg List.not_mem_nil

/-- The descent for a key from the root. -/
structure Descended (s : BPlusTree K V) (t : BTree K V h) (key : K) (log : GuardLog)
    (l : List (PageId × LeafPage K V)) (id : PageId) (page : LeafPage K V)
    (r : List (PageId × LeafPage K V)) : Prop where
  leafAt : BPlusTree.leafAt { s with log } id = some page
  leaves : t.leaves = l ++ (id, page) :: r
  leafOf : leafOf key t = some page
  left : ∀ x ∈ l, ∀ e ∈ x.2.array, e.1 < key
  right : ∀ x ∈ r, ∀ e ∈ x.2.array, key < e.1
  log : t.ids.Nodup → s.log.Ok [] → GuardLog.Ok log [(id, .read)]

omit [Inhabited V] in
theorem Readable.descend (hread : s.Readable t) (hfuel : h + 1 ≤ fuel) (key : K) :
    ∃ log l id page r,
      (s.fetchPage s.rootPageId .read).findLeaf .read (·.lookup key) fuel s.rootPageId =
        some (id, { s with log }) ∧ Descended s t key log l id page r := by
  obtain ⟨d, rfl⟩ := Nat.exists_eq_add_of_le' hfuel
  obtain ⟨log, l, id, page, r, hrun, hleaves, hleafOf, hl, hr, hlog⟩ :=
    findLeaf_lookup (s := s.fetchPage t.id .read) .read key d hread.rep hread.children hread.ordered
  have hpage : s.pages id = some (.leaf page) := hread.linked.pages (id, page) (by
    rw [hleaves]
    simp)
  refine ⟨log, l, id, page, r, ?_, ?_, hleaves, hleafOf, hl, hr, fun hnodup hlog' => ?_⟩
  · rw [← hread.root] at hrun
    exact hrun
  · simp only [BPlusTree.leafAt, hpage]
  · exact hlog hnodup (fetched_log hlog')

namespace Descended

variable {key : K} {log : GuardLog} {l r : List (PageId × LeafPage K V)} {id : PageId}
  {page : LeafPage K V}

omit [Inhabited V] in
theorem entries (hdesc : Descended s t key log l id page r) :
    t.entries = (l.flatMap fun x => x.2.array) ++ (page.array ++ r.flatMap fun x => x.2.array) := by
  rw [BTree.entries, hdesc.leaves, List.flatMap_append, List.flatMap_cons]

omit [Inhabited V] in
/-- An entry with the key is on the leaf. -/
theorem mem_entries (hdesc : Descended s t key log l id page r) {v : V} :
    (key, v) ∈ t.entries ↔ (key, v) ∈ page.array := by
  rw [hdesc.entries, List.mem_append, List.mem_append]
  constructor
  · rintro (hmem | hmem | hmem)
    · obtain ⟨x, hx, hmem⟩ := List.mem_flatMap.mp hmem
      exact absurd (hdesc.left x hx _ hmem) (lt_irrefl _)
    · exact hmem
    · obtain ⟨x, hx, hmem⟩ := List.mem_flatMap.mp hmem
      exact absurd (hdesc.right x hx _ hmem) (lt_irrefl _)
  · exact fun hmem => .inr (.inl hmem)

omit [Inhabited V] in
theorem increasing (hdesc : Descended s t key log l id page r) (hordered : t.Ordered) :
    Increasing page.array := by
  have hinc := hordered.increasing
  rw [hdesc.entries] at hinc
  exact (List.pairwise_append.mp (List.pairwise_append.mp hinc).2.1).1

end Descended

/-- **`GetValue`** finds the entry of the key. -/
theorem getValue_spec (hread : s.Readable t) (hfuel : h + 1 ≤ fuel) (key : K) :
    ∃ value log, s.getValue fuel key = some (value, { s with log }) ∧
      (∀ v, value = some v ↔ (key, v) ∈ t.entries) ∧
      (t.ids.Nodup → s.log.Ok [] → GuardLog.Ok log []) := by
  obtain ⟨log, l, id, page, r, hrun, hdesc⟩ := hread.descend hfuel key
  refine ⟨page.lookup key, .release id .read :: log, ?_, fun v => ?_, fun hnodup hlog => ?_⟩
  · show (if s.isEmpty then _ else _) = _
    rw [hread.isEmpty, if_neg Bool.false_ne_true]
    show (findLeaf _ _ _ (s.fetchPage s.rootPageId .read) s.rootPageId >>= _) = _
    rw [hrun]
    show (BPlusTree.leafAt { s with log } id >>= _) = _
    rw [hdesc.leafAt]
    rfl
  · rw [LeafPage.lookup_eq_some_iff (hdesc.increasing hread.ordered), hdesc.mem_entries]
  · exact (hdesc.log hnodup hlog).release_head

omit [Inhabited V] in
/-- **`Begin()`** is at the first entry. -/
theorem begin_spec (hread : s.Readable t) (hfuel : h + 1 ≤ fuel) :
    ∃ id page r log, s.begin fuel = some (⟨id, 0⟩, { s with log }) ∧ t.leaves = (id, page) :: r ∧
      (t.ids.Nodup → s.log.Ok [] → GuardLog.Ok log []) := by
  obtain ⟨d, rfl⟩ := Nat.exists_eq_add_of_le' hfuel
  obtain ⟨log, id, page, r, hrun, hleaves, hlog⟩ :=
    findLeaf_first (s := s.fetchPage t.id .read) .read d hread.rep hread.children
  refine ⟨id, page, r, .release id .read :: log, ?_, hleaves, fun hnodup hlog' => ?_⟩
  · show (if s.isEmpty then _ else _) = _
    rw [hread.isEmpty, if_neg Bool.false_ne_true]
    show (findLeaf _ _ _ (s.fetchPage s.rootPageId .read) s.rootPageId >>= _) = _
    rw [← hread.root] at hrun
    rw [show d + (h + 1) = d + h + 1 from rfl, hrun]
    rfl
  · exact (hlog hnodup (fetched_log hlog')).release_head

/-- **`Begin(key)`** is at the first entry of the leaf whose key is not below the key, at the
end if there is none. -/
theorem beginAt_spec (hread : s.Readable t) (hfuel : h + 1 ≤ fuel) (key : K) :
    ∃ log l id page r, Descended s t key log l id page r ∧
      s.beginAt fuel key = some
        (if page.array.length ≤ page.keyIndex key then endIterator else ⟨id, page.keyIndex key⟩,
          { s with log := .release id .read :: log }) := by
  obtain ⟨log, l, id, page, r, hrun, hdesc⟩ := hread.descend hfuel key
  refine ⟨log, l, id, page, r, hdesc, ?_⟩
  show (if s.isEmpty then _ else _) = _
  rw [hread.isEmpty, if_neg Bool.false_ne_true]
  show (findLeaf _ _ _ (s.fetchPage s.rootPageId .read) s.rootPageId >>= _) = _
  rw [hrun]
  show (BPlusTree.leafAt { s with log } id >>= _) = _
  rw [hdesc.leafAt]
  show (if page.array.length ≤ page.keyIndex key then _ else _) = _
  split
  · rfl
  · rfl

/-- The tree is empty, or it can be read and has these entries. -/
inductive Reads (s : BPlusTree K V) : List (K × V) → Prop where
  | empty : s.rootPageId = invalidPageId → Reads s []
  | tree {h : Nat} {t : BTree K V h} : s.Readable t → Reads s t.entries

/-- **The read paths agree.** The walk from `Begin()` ends; its keys increase and its entries
are those of the tree; `GetValue` finds the entries of the walk. -/
theorem walk_begin_getValue {entries : List (K × V)} (hs : s.Reads entries) :
    ∃ m, ∀ fuel, m ≤ fuel →
      (∃ it s' s'', s.begin fuel = some (it, s') ∧ s'.walk fuel it = some (entries, s'')) ∧
      Increasing entries ∧
      ∀ key, ∃ value s', s.getValue fuel key = some (value, s') ∧
        ∀ v, value = some v ↔ (key, v) ∈ entries := by
  cases hs with
  | empty hroot =>
    have hempty : s.isEmpty = true := decide_eq_true hroot
    refine ⟨1, fun fuel hfuel => ?_⟩
    obtain ⟨n, rfl⟩ := Nat.exists_eq_add_of_le' hfuel
    refine ⟨⟨endIterator, s, s, ?_, walk_end s n⟩, .nil, fun key => ⟨none, s, ?_, fun v => by simp⟩⟩
    · rw [BPlusTree.begin, if_pos hempty]
    · rw [getValue, if_pos hempty]
  | @tree h t hread =>
    refine ⟨h + 1 + t.entries.length, fun fuel hfuel => ?_⟩
    have hheight : h + 1 ≤ fuel := by omega
    refine ⟨?_, hread.ordered.increasing, fun key => ?_⟩
    · obtain ⟨id, page, r, log, hrun, hleaves, -⟩ := begin_spec hread hheight
      have hentries : t.entries = page.array ++ r.flatMap fun l => l.2.array := by
        rw [BTree.entries, hleaves, List.flatMap_cons]
      have hlinked := hread.linked
      rw [hleaves] at hlinked
      have hlinked' : Linked { s with log } ((id, page) :: r) :=
        ⟨hlinked.pages, hlinked.valid, hlinked.nonempty, hlinked.chained⟩
      have hpos := List.length_pos_iff.mpr (hlinked.nonempty _ List.mem_cons_self)
      obtain ⟨s'', hwalk⟩ := walk_leaves fuel hlinked' hpos (by
        rw [List.drop_zero, ← hentries]
        omega)
      rw [List.drop_zero, ← hentries] at hwalk
      exact ⟨_, _, s'', hrun, hwalk⟩
    · obtain ⟨value, log, hrun, hvalue, -⟩ := getValue_spec hread hheight key
      exact ⟨value, _, hrun, hvalue⟩

/-- **Iteration from a key** reads the entries whose keys are not below it, and starts at the end
if and only if there are none. -/
def YieldsFrom (s : BPlusTree K V) (fuel : Nat) (key : K) (entries : List (K × V)) : Prop :=
  ∃ it s' out s'', s.beginAt fuel key = some (it, s') ∧ s'.walk fuel it = some (out, s'') ∧
    out = (entries.filter fun e => key ≤ e.1) ∧ Increasing out ∧
    (it = endIterator ↔ ∀ e ∈ entries, e.1 < key)

/-- The leaf that the descent for the key reaches has smaller keys only, although the tree has
a key that is not smaller. -/
def Gap (key : K) (t : BTree K V h) : Prop :=
  (∀ page ∈ leafOf key t, ∀ e ∈ page.array, e.1 < key) ∧ ∃ e ∈ t.entries, key ≤ e.1

instance (key : K) (t : BTree K V h) : Decidable (Gap key t) :=
  inferInstanceAs (Decidable (_ ∧ _))

namespace Descended

variable {key : K} {log : GuardLog} {l r : List (PageId × LeafPage K V)} {id : PageId}
  {page : LeafPage K V}

/-- The entries from the key on are those of the leaf from `KeyIndex` on and those to the right. -/
theorem filter_entries (hdesc : Descended s t key log l id page r) (hordered : t.Ordered) :
    (t.entries.filter fun e => key ≤ e.1) =
      page.array.drop (page.keyIndex key) ++ r.flatMap fun x => x.2.array := by
  obtain ⟨a, b, harray, hindex, ha, hb⟩ := LeafPage.keyIndex_spec (hdesc.increasing hordered) key
  have hleft : ((l.flatMap fun x => x.2.array).filter fun e => decide (key ≤ e.1)) = [] := by
    rw [List.filter_eq_nil_iff]
    intro e he
    obtain ⟨x, hx, he⟩ := List.mem_flatMap.mp he
    simpa using hdesc.left x hx e he
  have ha' : (a.filter fun e => decide (key ≤ e.1)) = [] := by
    rw [List.filter_eq_nil_iff]
    intro e he
    simpa using ha e he
  have hb' : (b.filter fun e => decide (key ≤ e.1)) = b := by
    rw [List.filter_eq_self]
    intro e he
    simpa using hb e he
  have hright : ((r.flatMap fun x => x.2.array).filter fun e => decide (key ≤ e.1)) =
      r.flatMap fun x => x.2.array := by
    rw [List.filter_eq_self]
    intro e he
    obtain ⟨x, hx, he⟩ := List.mem_flatMap.mp he
    simpa using (hdesc.right x hx e he).le
  rw [hdesc.entries, List.filter_append, List.filter_append, hleft, hright, harray,
    List.filter_append, ha', hb', hindex, List.drop_left]
  rfl

/-- `KeyIndex` is past the end of the leaf if and only if its keys are smaller. -/
theorem keyIndex_past (hdesc : Descended s t key log l id page r) (hordered : t.Ordered) :
    page.array.length ≤ page.keyIndex key ↔ ∀ e ∈ page.array, e.1 < key := by
  obtain ⟨a, b, harray, hindex, ha, hb⟩ := LeafPage.keyIndex_spec (hdesc.increasing hordered) key
  rw [hindex, harray]
  constructor
  · intro hle e he
    have hnil : b = [] := by
      rw [List.length_append] at hle
      exact List.length_eq_zero_iff.mp (by omega)
    rw [hnil, List.append_nil] at he
    exact ha e he
  · intro hall
    have hnil : b = [] := by
      rw [List.eq_nil_iff_forall_not_mem]
      intro e he
      exact absurd (hb e he) (not_le.mpr (hall e (List.mem_append_right _ he)))
    rw [hnil, List.append_nil]

omit [Inhabited V] in
theorem gap_iff (hdesc : Descended s t key log l id page r) :
    Gap key t ↔ (∀ e ∈ page.array, e.1 < key) ∧ ∃ e ∈ t.entries, key ≤ e.1 := by
  simp only [Gap, hdesc.leafOf, Option.mem_def, Option.some.injEq, forall_eq']

end Descended

/-- `Begin(key)` is at the end. -/
theorem yieldsFrom_end {key : K} {s' : BPlusTree K V}
    (hrun : s.beginAt (fuel + 1) key = some (endIterator, s')) (entries : List (K × V)) :
    s.YieldsFrom (fuel + 1) key entries ↔ ∀ e ∈ entries, e.1 < key := by
  constructor
  · rintro ⟨it, s₁, out, s₂, hrun', -, -, -, hend⟩
    rw [hrun] at hrun'
    obtain ⟨rfl, -⟩ := Prod.mk.inj (Option.some.inj hrun')
    exact hend.mp rfl
  · intro hall
    refine ⟨endIterator, s', [], s', hrun, walk_end s' fuel, ?_, .nil, iff_of_true rfl hall⟩
    symm
    rw [List.filter_eq_nil_iff]
    intro e he
    simpa using hall e he

/-- `Begin(key)` is on a leaf. -/
theorem Descended.yieldsFrom {key : K} {log : GuardLog} {l r : List (PageId × LeafPage K V)}
    {id : PageId} {page : LeafPage K V} {s' : BPlusTree K V}
    (hdesc : Descended s t key log l id page r) (hread : s.Readable t)
    (hfuel : t.entries.length < fuel) (hindex : page.keyIndex key < page.array.length)
    (hrun : s.beginAt fuel key = some (⟨id, page.keyIndex key⟩, s')) (hpages : s'.pages = s.pages) :
    s.YieldsFrom fuel key t.entries := by
  have hfilter := hdesc.filter_entries hread.ordered
  have hlinked := hread.linked
  rw [hdesc.leaves] at hlinked
  have hlinked' : s'.Linked ((id, page) :: r) :=
    ⟨hpages ▸ hlinked.right.pages, hlinked.right.valid, hlinked.right.nonempty,
      hlinked.right.chained⟩
  obtain ⟨s'', hwalk⟩ := walk_leaves fuel hlinked' hindex (by
    rw [← hfilter]
    exact (List.length_filter_le _ _).trans_lt hfuel)
  rw [← hfilter] at hwalk
  refine ⟨_, s', _, s'', hrun, hwalk, rfl, hread.ordered.increasing.filter _, iff_of_false ?_ ?_⟩
  · intro hend
    exact hlinked'.valid _ List.mem_cons_self (congrArg BPlusTreeIterator.pageId hend)
  · intro hall
    refine absurd hindex (not_lt.mpr ((hdesc.keyIndex_past hread.ordered).mpr fun e he => ?_))
    exact hall e (hdesc.entries ▸ List.mem_append_right _ (List.mem_append_left _ he))

/-- **Iteration from a key** is right on an empty tree, and on another if and only if the key is
not in a gap. -/
theorem walk_beginAt_iff (s : BPlusTree K V) (key : K) :
    (s.rootPageId = invalidPageId → ∀ fuel, 1 ≤ fuel → s.YieldsFrom fuel key []) ∧
    ∀ (h : Nat) (t : BTree K V h), s.Readable t →
      ∃ m, ∀ fuel, m ≤ fuel → (s.YieldsFrom fuel key t.entries ↔ ¬ Gap key t) := by
  constructor
  · intro hroot fuel hfuel
    have hempty : s.isEmpty = true := decide_eq_true hroot
    obtain ⟨n, rfl⟩ := Nat.exists_eq_add_of_le' hfuel
    have hrun : s.beginAt (n + 1) key = some (endIterator, s) := by
      rw [beginAt, if_pos hempty]
    exact (yieldsFrom_end hrun []).mpr fun e he => absurd he List.not_mem_nil
  · intro h t hread
    refine ⟨h + 1 + t.entries.length, fun fuel hfuel => ?_⟩
    have hheight : h + 1 ≤ fuel := by omega
    obtain ⟨log, l, id, page, r, hdesc, hrun⟩ := beginAt_spec hread hheight key
    have hpast := hdesc.keyIndex_past hread.ordered
    rw [hdesc.gap_iff]
    by_cases hend : page.array.length ≤ page.keyIndex key
    · obtain ⟨n, rfl⟩ : ∃ n, fuel = n + 1 := ⟨fuel - 1, by omega⟩
      rw [if_pos hend] at hrun
      rw [yieldsFrom_end hrun, and_iff_right (hpast.mp hend)]
      simp only [not_exists, not_and, not_le]
    · rw [if_neg hend] at hrun
      refine iff_of_true ?_ fun hgap => hend (hpast.mpr hgap.1)
      exact hdesc.yieldsFrom hread (by omega) (not_le.mp hend) hrun rfl

end Agree

/-! ## A tree with a gap -/

/-- The keys 1, 2, 5 and 6 inserted into a tree with room for three entries in a leaf. -/
def gapTree : BTree Int RID 1 :=
  node 2 3 invalidPageId
    [(0, leaf 0 ⟨3, 2, 1, [(1, {}), (2, {})]⟩),
     (5, leaf 1 ⟨3, 2, invalidPageId, [(5, {}), (6, {})]⟩)]

theorem gapTree_wellFormed : (ofTree gapTree 3 3 3).WellFormed gapTree := by
  refine wellFormed_ofTree ?_ ?_ rfl ?_ ?_ ?_ ?_
  all_goals decide

theorem gapTree_readable : (ofTree gapTree 3 3 3).Readable gapTree :=
  gapTree_wellFormed.readable (by decide) (Nat.le_succ 2)

theorem walk_begin_getValue_gapTree :
    ∃ fuel it s' s'', (ofTree gapTree 3 3 3).begin fuel = some (it, s') ∧
      s'.walk fuel it = some ([(1, {}), (2, {}), (5, {}), (6, {})], s'') := by
  obtain ⟨m, hm⟩ := walk_begin_getValue (.tree gapTree_readable)
  obtain ⟨it, s', s'', hbegin, hwalk⟩ := (hm m (Nat.le_refl m)).1
  exact ⟨m, it, s', s'', hbegin, hwalk⟩

/-- Iteration from a separator. -/
theorem walk_beginAt_iff_separator : ¬ Gap 5 gapTree ∧
    ∃ fuel, (ofTree gapTree 3 3 3).YieldsFrom fuel 5 [(1, {}), (2, {}), (5, {}), (6, {})] := by
  have hgap : ¬ Gap 5 gapTree := by decide
  obtain ⟨m, hm⟩ := (walk_beginAt_iff (ofTree gapTree 3 3 3) 5).2 1 gapTree gapTree_readable
  exact ⟨hgap, m, (hm m (Nat.le_refl m)).mpr hgap⟩

/-- `Begin(3)` goes to the leaf with 1 and 2, and does not go on to the one with 5 and 6. -/
theorem beginAt_gap :
    ¬ ∀ (h : Nat) (t : BTree Int RID h) (s : BPlusTree Int RID) (key : Int), s.WellFormed t →
      s.RootMin → s.RootMax → 2 ≤ s.leafMaxSize → 3 ≤ s.internalMaxSize →
      ∃ m, ∀ fuel, m ≤ fuel → s.YieldsFrom fuel key t.entries := by
  intro hall
  have hmin : (ofTree gapTree 3 3 3).RootMin :=
    (rootMin_iff gapTree_wellFormed.root (by decide) gapTree_wellFormed.rep).mpr (by decide)
  obtain ⟨m, hm⟩ := hall 1 gapTree (ofTree gapTree 3 3 3) 3 gapTree_wellFormed hmin
    (gapTree_wellFormed.rootMax_iff.mpr (by decide)) (Nat.le_succ 2) (Nat.le_refl 3)
  have hrun : ∃ s', (ofTree gapTree 3 3 3).beginAt (m + 2) 3 = some (endIterator, s') := ⟨_, rfl⟩
  obtain ⟨s', hrun⟩ := hrun
  have hsmall := (yieldsFrom_end hrun _).mp (hm (m + 2) (Nat.le_add_right m 2))
  exact absurd (hsmall (5, {}) (by decide)) (by decide)

end BPlusTree

end OneBase
