import OneBase.Index.RemoveShape
import OneBase.Index.TreeStore

/-!
# The steps of `Remove`

One equation for each way through `CoalesceOrRedistribute`, `Coalesce` and `Redistribute`,
on pages with known children. The two neighbours `a` and `b` stand between the children `l`
and `r` of the page above them.
-/

namespace OneBase

namespace BPlusTree

open BTree

variable {K V : Type} [Inhabited K] [Inhabited V] {h : Nat}

/-! ## Slots -/

section Slots

omit [Inhabited V]

variable {m : Nat} {p : PageId} {l r : List (K × BTree K V h)} {a b c : K × BTree K V h}

omit [Inhabited K] in
theorem slots_append : slots (l ++ c :: r) = slots l ++ (c.1, c.2.id) :: slots r := by
  simp [slots]

omit [Inhabited K] in
theorem length_slots : (slots l).length = l.length := List.length_map _

omit [Inhabited K] in
theorem valueIndex_slots (hdistinct : ∀ x ∈ l, x.2.id ≠ c.2.id) :
    (⟨m, p, slots (l ++ c :: r)⟩ : InternalPage K).valueIndex c.2.id = some l.length := by
  have hl : ∀ x ∈ slots l, x.2 ≠ (c.1, c.2.id).2 := by
    intro x hx
    obtain ⟨c', hc', rfl⟩ := List.mem_map.mp hx
    exact hdistinct c' hc'
  have heq := @InternalPage.valueIndex_eq K ⟨m, p, slots (l ++ c :: r)⟩ _ _ _ slots_append hl
  rwa [length_slots] at heq

theorem valueAt_slots :
    (⟨m, p, slots (l ++ c :: r)⟩ : InternalPage K).valueAt l.length = c.2.id := by
  simp [InternalPage.valueAt, slots, List.getD_eq_getElem?_getD]

theorem keyAt_slots_succ :
    (⟨m, p, slots (l ++ a :: b :: r)⟩ : InternalPage K).keyAt (l.length + 1) = b.1 := by
  simp [InternalPage.keyAt, slots, List.getD_eq_getElem?_getD]

omit [Inhabited K] in
theorem remove_slots : (⟨m, p, slots (l ++ a :: b :: r)⟩ : InternalPage K).remove (l.length + 1) =
    ⟨m, p, slots (l ++ a :: r)⟩ := by
  have heq := @InternalPage.remove_eq K ⟨m, p, slots (l ++ a :: b :: r)⟩ (slots (l ++ [a]))
    (slots r) (b.1, b.2.id) (by simp [slots])
  rw [length_slots, List.length_append] at heq
  rw [show l.length + 1 = l.length + [a].length from rfl, heq]
  simp [slots]

omit [Inhabited K] in
theorem setKeyAt_slots_succ (k : K) :
    (⟨m, p, slots (l ++ a :: b :: r)⟩ : InternalPage K).setKeyAt (l.length + 1) k =
      ⟨m, p, slots (l ++ a :: (k, b.2) :: r)⟩ := by
  have hsplit : slots (l ++ a :: b :: r) = slots (l ++ [a]) ++ (b.1, b.2.id) :: slots r := by
    simp [slots]
  have hlen : l.length + 1 = (slots (l ++ [a])).length := by simp [slots]
  rw [InternalPage.setKeyAt, hsplit, hlen, List.modify_eq_take_drop, List.take_left, List.drop_left]
  simp [slots]

end Slots

/-! ## One step of `CoalesceOrRedistribute` -/

omit [Inhabited K] [Inhabited V] in
theorem internalAt_eq {s : BPlusTree K V} {id : PageId} {page : InternalPage K}
    (hpage : s.pages id = some (.internal page)) : s.internalAt id = some page := by
  simp only [internalAt, hpage]

section Pair

variable {s : BPlusTree K V} {id p : PageId} {m : Nat} {l r : List (K × BTree K V h)}
  {a b : K × BTree K V h}

/-- The parent and the neighbour of an underfull page are fetched. -/
def paired (s : BPlusTree K V) (id sibling : PageId) : BPlusTree K V :=
  (s.fetchPage id .write).fetchPage sibling .write

/-- What follows `Coalesce`. -/
def afterCoalesce (n : Nat) (node sibling id : PageId) (x : Bool × BPlusTree K V) :
    Option (Bool × BPlusTree K V) :=
  let s := (x.2.drop node .write).drop sibling .write
  if x.1 then s.coalesceOrRedistribute n id else some (false, s.drop id .write)

/-- What follows `Redistribute`. -/
def afterRedistribute (node sibling id : PageId) (s : BPlusTree K V) :
    Option (Bool × BPlusTree K V) :=
  some (false, ((s.drop sibling .write).drop id .write).drop node .write)

/-- **An underfull page with a left neighbour.** -/
theorem coalesceOrRedistribute_left
    (hpage : s.pages id = some (.internal ⟨m, p, slots (l ++ a :: b :: r)⟩))
    (ha : s.pages a.2.id = some a.2.page) (hb : s.pages b.2.id = some b.2.page)
    (hparent : b.2.parent = id) (hid : id ≠ invalidPageId)
    (hunder : b.2.page.getSize < b.2.page.getMinSize)
    (hdistinct : ∀ x ∈ l ++ [a], x.2.id ≠ b.2.id) (n : Nat) :
    s.coalesceOrRedistribute (n + 1) b.2.id =
      if b.2.page.getSize + a.2.page.getSize ≤ b.2.page.getMaxSize then
        ((s.paired id a.2.id).coalesce a.2.id b.2.id id l.length).bind
          (afterCoalesce n b.2.id a.2.id id)
      else
        ((s.paired id a.2.id).redistribute a.2.id b.2.id (l.length + 1) true).bind
          (afterRedistribute b.2.id a.2.id id) := by
  have hparent' : b.2.page.getParentPageId = id := hparent
  have hroot : b.2.page.isRootPage = false := by
    simp [TreePage.isRootPage, hparent', hid]
  have hat : (s.fetchPage id .write).internalAt id = some ⟨m, p, slots (l ++ a :: b :: r)⟩ :=
    internalAt_eq hpage
  have hindex : (⟨m, p, slots (l ++ a :: b :: r)⟩ : InternalPage K).valueIndex b.2.id =
      some (l.length + 1) := by
    have hindex := @valueIndex_slots K V h m p (l ++ [a]) r b hdistinct
    simpa using hindex
  have hsibling : ((s.fetchPage id .write).fetchPage a.2.id .write).pages a.2.id =
      some a.2.page := ha
  rw [coalesceOrRedistribute]
  simp only [hb, Option.bind_eq_bind, Option.bind_some, hroot, Bool.false_eq_true, if_false,
    if_neg (Nat.not_le.mpr hunder), hparent', hat, hindex, Nat.zero_lt_succ, decide_true, if_true,
    Nat.add_sub_cancel, valueAt_slots, hsibling]
  rfl

/-- **An underfull page without a left neighbour.** -/
theorem coalesceOrRedistribute_right
    (hpage : s.pages id = some (.internal ⟨m, p, slots (a :: b :: r)⟩))
    (ha : s.pages a.2.id = some a.2.page) (hb : s.pages b.2.id = some b.2.page)
    (hparent : a.2.parent = id) (hid : id ≠ invalidPageId)
    (hunder : a.2.page.getSize < a.2.page.getMinSize) (n : Nat) :
    s.coalesceOrRedistribute (n + 1) a.2.id =
      if a.2.page.getSize + b.2.page.getSize ≤ a.2.page.getMaxSize then
        ((s.paired id b.2.id).coalesce a.2.id b.2.id id 0).bind (afterCoalesce n a.2.id b.2.id id)
      else
        ((s.paired id b.2.id).redistribute b.2.id a.2.id 0 false).bind
          (afterRedistribute a.2.id b.2.id id) := by
  have hparent' : a.2.page.getParentPageId = id := hparent
  have hroot : a.2.page.isRootPage = false := by
    simp [TreePage.isRootPage, hparent', hid]
  have hat : (s.fetchPage id .write).internalAt id = some ⟨m, p, slots (a :: b :: r)⟩ :=
    internalAt_eq hpage
  have hindex : (⟨m, p, slots (a :: b :: r)⟩ : InternalPage K).valueIndex a.2.id = some 0 :=
    @valueIndex_slots K V h m p [] (b :: r) a fun _ hx => absurd hx List.not_mem_nil
  have hvalue : (⟨m, p, slots (a :: b :: r)⟩ : InternalPage K).valueAt (0 + 1) = b.2.id := rfl
  have hsibling : ((s.fetchPage id .write).fetchPage b.2.id .write).pages b.2.id =
      some b.2.page := hb
  rw [coalesceOrRedistribute]
  simp only [ha, Option.bind_eq_bind, Option.bind_some, hroot, Bool.false_eq_true, if_false,
    if_neg (Nat.not_le.mpr hunder), hparent', hat, hindex, Nat.lt_irrefl, decide_false, hvalue,
    hsibling]
  rfl

end Pair

/-! ## `Coalesce` -/

section Leaves

variable {s : BPlusTree K V} {id p ia ib : PageId} {m : Nat} {l r : List (K × BTree K V 0)}
  {ka kb : K} {pa pb : LeafPage K V}

omit [Inhabited V] in
/-- `Coalesce` of two leaves. -/
theorem coalesce_leaves (hpage : s.pages id = some (.internal
      ⟨m, p, slots (l ++ (ka, leaf ia pa) :: (kb, leaf ib pb) :: r)⟩))
    (ha : s.pages ia = some (.leaf pa)) (hb : s.pages ib = some (.leaf pb)) :
    s.coalesce ia ib id l.length =
      some (decide (l.length + r.length + 1 < (m + 1) / 2), { s with
        pages := Function.update (Function.update (Function.update s.pages ib
          (some (.leaf { pb with array := [] }))) ia (some (.leaf (mergeLeaves pa pb)))) id
          (some (.internal ⟨m, p, slots (l ++ (ka, leaf ia (mergeLeaves pa pb)) :: r)⟩)) }) := by
  have hslots : slots (l ++ (ka, leaf ia pa) :: r) =
      slots (l ++ (ka, leaf ia (mergeLeaves pa pb)) :: r) := by
    simp only [slots, List.map_append, List.map_cons]
    rfl
  have hlen : (slots (l ++ (ka, leaf ia (mergeLeaves pa pb)) :: r)).length =
      l.length + r.length + 1 := by
    rw [length_slots, List.length_append, List.length_cons]
    omega
  simp only [coalesce, coalescePages, internalAt_eq hpage, hb, leafAt, ha, Option.bind_eq_bind,
    Option.bind_some, remove_slots, hslots, hlen]
  rfl

/-- The store after an entry went from one leaf to the other: the page `node` was written
first. -/
def borrowedPages (store : PageId → Option (TreePage K V)) (node sibling id : PageId)
    (nodePage siblingPage parentPage : TreePage K V) : PageId → Option (TreePage K V) :=
  Function.update (Function.update (Function.update store node (some nodePage)) sibling
    (some siblingPage)) id (some parentPage)

section Pages

omit [Inhabited K] [Inhabited V]

variable {store : PageId → Option (TreePage K V)} {node sibling q : PageId}
  {nodePage siblingPage parentPage : TreePage K V}

theorem borrowedPages_self :
    borrowedPages store node sibling id nodePage siblingPage parentPage id = some parentPage :=
  Function.update_self ..

theorem borrowedPages_sibling (hid : sibling ≠ id) :
    borrowedPages store node sibling id nodePage siblingPage parentPage sibling =
      some siblingPage := by
  rw [borrowedPages, Function.update_of_ne hid, Function.update_self]

theorem borrowedPages_node (hid : node ≠ id) (hne : node ≠ sibling) :
    borrowedPages store node sibling id nodePage siblingPage parentPage node = some nodePage := by
  rw [borrowedPages, Function.update_of_ne hid, Function.update_of_ne hne, Function.update_self]

theorem borrowedPages_of_ne (hid : q ≠ id) (hnode : q ≠ node) (hsibling : q ≠ sibling) :
    borrowedPages store node sibling id nodePage siblingPage parentPage q = store q := by
  rw [borrowedPages, Function.update_of_ne hid, Function.update_of_ne hsibling,
    Function.update_of_ne hnode]

end Pages

/-- A leaf borrows the last entry of its left neighbour. -/
theorem redistribute_leaves_left {x : List (K × V)} {e : K × V}
    (hpage : s.pages id = some (.internal
      ⟨m, p, slots (l ++ (ka, leaf ia pa) :: (kb, leaf ib pb) :: r)⟩))
    (ha : s.pages ia = some (.leaf pa)) (hb : s.pages ib = some (.leaf pb))
    (hparent : pb.parentPageId = id) (harray : pa.array = x ++ [e]) :
    s.redistribute ia ib (l.length + 1) true = some { s with
      pages := borrowedPages s.pages ib ia id (.leaf { pb with array := e :: pb.array })
        (.leaf { pa with array := x }) (.internal ⟨m, p, slots
          (l ++ (ka, leaf ia { pa with array := x }) ::
            (e.1, leaf ib { pb with array := e :: pb.array }) :: r)⟩)
      log := .release id .write :: .acquire id .write :: s.log } := by
  subst hparent
  have hmove : pa.moveLastToFrontOf pb =
      ({ pa with array := x }, { pb with array := e :: pb.array }) := by
    simp [LeafPage.moveLastToFrontOf, harray, List.getD_eq_getElem?_getD]
  have hslots : slots (l ++ (ka, leaf ia pa) :: (e.1, leaf ib pb) :: r) =
      slots (l ++ (ka, leaf ia { pa with array := x }) ::
        (e.1, leaf ib { pb with array := e :: pb.array }) :: r) := by
    simp only [slots, List.map_append, List.map_cons]
    rfl
  have hkey : ({ pb with array := e :: pb.array } : LeafPage K V).keyAt 0 = e.1 := rfl
  simp only [redistribute, redistributeLeaf, hb, Option.bind_eq_bind, Option.bind_some,
    TreePage.getParentPageId, TreePage.isLeafPage, if_true]
  simp only [fetchPage, internalAt, hpage, leafAt, ha, hb, hmove, hkey, Option.bind_some,
    setKeyAt_slots_succ, hslots]
  rfl

/-- A leaf borrows the first entry of its right neighbour. -/
theorem redistribute_leaves_right {y : List (K × V)} {e e' : K × V} (hpage : s.pages id =
      some (.internal ⟨m, p, slots ((ka, leaf ia pa) :: (kb, leaf ib pb) :: r)⟩))
    (ha : s.pages ia = some (.leaf pa)) (hb : s.pages ib = some (.leaf pb))
    (hparent : pa.parentPageId = id) (harray : pb.array = e :: e' :: y) :
    s.redistribute ib ia 0 false = some { s with
      pages := borrowedPages s.pages ia ib id (.leaf { pa with array := pa.array ++ [e] })
        (.leaf { pb with array := e' :: y }) (.internal ⟨m, p, slots
          ((ka, leaf ia { pa with array := pa.array ++ [e] }) ::
            (e'.1, leaf ib { pb with array := e' :: y }) :: r)⟩)
      log := .release id .write :: .acquire id .write :: s.log } := by
  subst hparent
  have hmove : pb.moveFirstToEndOf pa =
      ({ pb with array := e' :: y }, { pa with array := pa.array ++ [e] }) := by
    simp [LeafPage.moveFirstToEndOf, harray, List.getD_eq_getElem?_getD]
  have hslots : slots ((ka, leaf ia pa) :: (e'.1, leaf ib pb) :: r) =
      slots ((ka, leaf ia { pa with array := pa.array ++ [e] }) ::
        (e'.1, leaf ib { pb with array := e' :: y }) :: r) := by
    simp only [slots, List.map_cons]
    rfl
  have hkey : ({ pb with array := e' :: y } : LeafPage K V).keyAt 0 = e'.1 := rfl
  have hset : ∀ k, (⟨m, p, slots ((ka, leaf ia pa) :: (kb, leaf ib pb) :: r)⟩ :
      InternalPage K).setKeyAt (0 + 1) k =
        ⟨m, p, slots ((ka, leaf ia pa) :: (k, leaf ib pb) :: r)⟩ := fun k => rfl
  simp only [redistribute, redistributeLeaf, ha, Option.bind_eq_bind, Option.bind_some,
    TreePage.getParentPageId, TreePage.isLeafPage, if_true]
  simp only [fetchPage, internalAt, hpage, leafAt, ha, hb, hmove, hkey, Option.bind_some,
    Bool.false_eq_true, if_false, hset, hslots]
  rfl

end Leaves

section Inner

variable {s : BPlusTree K V} {id p ia ib pa pb : PageId} {m m' m'' : Nat}
  {l r : List (K × BTree K V (h + 1))} {as bs : List (K × BTree K V h)} {b₀ : K × BTree K V h}
  {ka kb : K}

/-- The store after two internal pages were merged: the children `cs` are in the left page and
have its parent as their parent. -/
def coalescedPages (store : PageId → Option (TreePage K V)) (ia ib id : PageId) (m m' : Nat)
    (pa pb : PageId) (cs : List (K × BTree K V h)) (parentPage : TreePage K V) :
    PageId → Option (TreePage K V) :=
  let merged := Function.update (Function.update store ib (some (.internal ⟨m', pb, []⟩))) ia
    (some (.internal ⟨m, pa, slots cs⟩))
  Function.update (fun q =>
    if q ∈ cs.map (fun c => c.2.id) then (merged q).map (TreePage.setParentPageId pa)
    else merged q) id (some parentPage)

section Pages

omit [Inhabited K] [Inhabited V]

variable {store : PageId → Option (TreePage K V)} {cs : List (K × BTree K V h)}
  {parentPage : TreePage K V}

theorem coalescedPages_self :
    coalescedPages store ia ib id m m' pa pb cs parentPage id = some parentPage := by
  rw [coalescedPages, Function.update_self]

theorem coalescedPages_left (hid : ia ≠ id) (hnot : ia ∉ cs.map fun c => c.2.id) :
    coalescedPages store ia ib id m m' pa pb cs parentPage ia =
      some (.internal ⟨m, pa, slots cs⟩) := by
  rw [coalescedPages, Function.update_of_ne hid, if_neg hnot, Function.update_self]

theorem coalescedPages_of_ne {q : PageId} (hid : q ≠ id) (hia : q ≠ ia) (hib : q ≠ ib) :
    coalescedPages store ia ib id m m' pa pb cs parentPage q =
      if q ∈ cs.map (fun c => c.2.id) then (store q).map (TreePage.setParentPageId pa)
      else store q := by
  rw [coalescedPages, Function.update_of_ne hid, Function.update_of_ne hia,
    Function.update_of_ne hib]

end Pages

omit [Inhabited V] in
/-- `Coalesce` of two internal pages. -/
theorem coalesce_inner (hpage : s.pages id = some (.internal
      ⟨m'', p, slots (l ++ (ka, node ia m pa as) :: (kb, node ib m' pb (b₀ :: bs)) :: r)⟩))
    (ha : s.pages ia = some (.internal ⟨m, pa, slots as⟩))
    (hb : s.pages ib = some (.internal ⟨m', pb, slots (b₀ :: bs)⟩)) :
    let cs := as ++ (kb, b₀.2) :: bs
    ∃ log, s.coalesce ia ib id l.length =
        some (decide (l.length + r.length + 1 < (m'' + 1) / 2), { s with
          pages := coalescedPages s.pages ia ib id m m' pa pb cs
            (.internal ⟨m'', p, slots (l ++ (ka, node ia m pa (adopt pa cs)) :: r)⟩)
          log }) ∧
      ∀ ps, s.log.Ok ps → (∀ c ∈ cs, ∀ g ∈ ps, g.1 ≠ c.2.id) → GuardLog.Ok log ps := by
  intro cs
  have hmove : (⟨m', pb, slots (b₀ :: bs)⟩ : InternalPage K).moveAllTo ⟨m, pa, slots as⟩ kb =
      (⟨m', pb, []⟩, ⟨m, pa, slots cs⟩) := by
    simp [InternalPage.moveAllTo, slots, cs]
  obtain ⟨log, heq, hlog⟩ := setParents_eq pa (slots cs)
    ((s.write ib (.internal ⟨m', pb, []⟩)).write ia (.internal ⟨m, pa, slots cs⟩))
  have hmap : (slots cs).map Prod.snd = cs.map fun c => c.2.id := by
    simp [slots]
  have hslots : slots (l ++ (ka, node ia m pa as) :: r) =
      slots (l ++ (ka, node ia m pa (adopt pa cs)) :: r) := by
    simp only [slots, List.map_append, List.map_cons]
    rfl
  have hlen : (slots (l ++ (ka, node ia m pa (adopt pa cs)) :: r)).length =
      l.length + r.length + 1 := by
    rw [length_slots, List.length_append, List.length_cons]
    omega
  refine ⟨log, ?_, fun ps hps hfree => hlog ps hps fun e he => ?_⟩
  · simp only [coalesce, coalescePages, internalAt_eq hpage, hb, internalAt_eq ha, keyAt_slots_succ,
      hmove, Option.bind_eq_bind, Option.bind_some, heq, remove_slots, hslots, hlen, hmap]
    rfl
  · obtain ⟨c, hc, rfl⟩ := List.mem_map.mp he
    exact hfree c hc

/-- An internal page borrows the last child of its left neighbour. -/
theorem redistribute_inner_left {e : K × BTree K V h} (hpage : s.pages id = some (.internal
      ⟨m'', p, slots (l ++ (ka, node ia m pa (as ++ [e])) :: (kb, node ib m' pb (b₀ :: bs)) :: r)⟩))
    (ha : s.pages ia = some (.internal ⟨m, pa, slots (as ++ [e])⟩))
    (hb : s.pages ib = some (.internal ⟨m', pb, slots (b₀ :: bs)⟩)) (hparent : pb = id) :
    let bs' := (b₀.1, b₀.2.setParent pb) :: (kb, e.2) :: bs
    let store := borrowedPages s.pages ib ia id (.internal ⟨m', pb, slots bs'⟩)
      (.internal ⟨m, pa, slots as⟩) (.internal ⟨m'', p, slots
        (l ++ (ka, node ia m pa as) :: (kb, node ib m' pb bs') :: r)⟩)
    s.redistribute ia ib (l.length + 1) true = some { s with
      pages := Function.update store b₀.2.id ((store b₀.2.id).map (TreePage.setParentPageId pb))
      log := .release id .write :: .release b₀.2.id .write :: .acquire b₀.2.id .write ::
        .acquire id .write :: s.log } := by
  intro bs' store
  subst hparent
  have hslots' : slots bs' = (b₀.1, b₀.2.id) :: (kb, e.2.id) :: slots bs := by
    simp [bs', slots]
  have hmove : (⟨m, pa, slots (as ++ [e])⟩ : InternalPage K).moveLastToFrontOf
      ⟨m', pb, slots (b₀ :: bs)⟩ kb = (⟨m, pa, slots as⟩, ⟨m', pb, slots bs'⟩) := by
    rw [hslots']
    simp [InternalPage.moveLastToFrontOf, InternalPage.valueAt, slots, List.getD_eq_getElem?_getD]
  have hkey : (⟨m', pb, slots bs'⟩ : InternalPage K).keyAt 1 = kb := by
    rw [hslots']
    rfl
  have hvalue : (⟨m', pb, slots bs'⟩ : InternalPage K).valueAt 0 = b₀.2.id := by
    rw [hslots']
    rfl
  have hslots : slots (l ++ (ka, node ia m pa (as ++ [e])) :: (kb, node ib m' pb (b₀ :: bs)) :: r) =
      slots (l ++ (ka, node ia m pa as) :: (kb, node ib m' pb bs') :: r) := by
    simp only [slots, List.map_append, List.map_cons]
    rfl
  simp only [redistribute, redistributeInternal, hb, Option.bind_eq_bind, Option.bind_some,
    TreePage.getParentPageId, TreePage.isLeafPage, Bool.false_eq_true, if_false]
  simp only [fetchPage, internalAt, hpage, ha, hb, keyAt_slots_succ, hmove, hkey, hvalue,
    Option.bind_some, if_true, setKeyAt_slots_succ, hslots]
  rfl

/-- An internal page borrows the first child of its right neighbour. -/
theorem redistribute_inner_right {e b₁ : K × BTree K V h} (hpage : s.pages id = some (.internal
      ⟨m'', p, slots ((ka, node ia m pa as) :: (kb, node ib m' pb (e :: b₁ :: bs)) :: r)⟩))
    (ha : s.pages ia = some (.internal ⟨m, pa, slots as⟩))
    (hb : s.pages ib = some (.internal ⟨m', pb, slots (e :: b₁ :: bs)⟩)) (hparent : pa = id) :
    let as' := as ++ [(kb, e.2.setParent pa)]
    let bs' := (e.1, b₁.2) :: bs
    let k := (⟨m', pb, slots bs'⟩ : InternalPage K).keyAt 1
    let store := borrowedPages s.pages ia ib id (.internal ⟨m, pa, slots as'⟩)
      (.internal ⟨m', pb, slots bs'⟩) (.internal ⟨m'', p, slots
        ((ka, node ia m pa as') :: (k, node ib m' pb bs') :: r)⟩)
    s.redistribute ib ia 0 false = some { s with
      pages := Function.update store e.2.id ((store e.2.id).map (TreePage.setParentPageId pa))
      log := .release id .write :: .release e.2.id .write :: .acquire e.2.id .write ::
        .acquire id .write :: s.log } := by
  intro as' bs' k store
  subst hparent
  have hslots' : slots as' = slots as ++ [(kb, e.2.id)] := by
    simp [as', slots]
  have hmove : (⟨m', pb, slots (e :: b₁ :: bs)⟩ : InternalPage K).moveFirstToEndOf
      ⟨m, pa, slots as⟩ kb = (⟨m', pb, slots bs'⟩, ⟨m, pa, slots as'⟩) := by
    rw [hslots']
    rfl
  have hvalue : (⟨m, pa, slots as'⟩ : InternalPage K).valueAt ((slots as').length - 1) =
      e.2.id := by
    simp [InternalPage.valueAt, hslots', List.getD_eq_getElem?_getD]
  have hkey : (⟨m'', p, slots ((ka, node ia m pa as) ::
      (kb, node ib m' pb (e :: b₁ :: bs)) :: r)⟩ : InternalPage K).keyAt (0 + 1) = kb := rfl
  have hset : (⟨m'', p, slots ((ka, node ia m pa as) ::
      (kb, node ib m' pb (e :: b₁ :: bs)) :: r)⟩ : InternalPage K).setKeyAt (0 + 1) k =
        ⟨m'', p, slots ((ka, node ia m pa as') :: (k, node ib m' pb bs') :: r)⟩ := rfl
  simp only [redistribute, redistributeInternal, ha, Option.bind_eq_bind, Option.bind_some,
    TreePage.getParentPageId, TreePage.isLeafPage, Bool.false_eq_true, if_false]
  simp only [fetchPage, internalAt, hpage, ha, hb, hkey, hmove, hvalue, Option.bind_some]
  rw [hset]
  rfl

end Inner

/-! ## The root -/

section Root

variable {s : BPlusTree K V} {id : PageId}

/-- A root that is a leaf. -/
theorem coalesceOrRedistribute_root_leaf {page : LeafPage K V}
    (hpage : s.pages id = some (.leaf page))
    (hroot : page.parentPageId = invalidPageId) (n : Nat) :
    s.coalesceOrRedistribute (n + 1) id =
      if page.array = [] then some (true, { s with rootPageId := invalidPageId }.drop id .write)
      else some (false, s.drop id .write) := by
  have hroot' : (TreePage.leaf page : TreePage K V).isRootPage = true := by
    simp [TreePage.isRootPage, TreePage.getParentPageId, hroot]
  rw [coalesceOrRedistribute]
  simp only [hpage, Option.bind_eq_bind, Option.bind_some, hroot', if_true, adjustRoot,
    List.length_eq_zero_iff]
  by_cases harray : page.array = []
  · rw [if_pos harray, if_pos harray]
    rfl
  · rw [if_neg harray, if_neg harray]
    rfl

/-- A root that has one child gives way to it. -/
theorem coalesceOrRedistribute_root_single {m : Nat} {c : K × BTree K V h}
    (hpage : s.pages id = some (.internal ⟨m, invalidPageId, slots [c]⟩)) (n : Nat) :
    s.coalesceOrRedistribute (n + 1) id =
      some (true, (({ s.write id (.internal ⟨m, invalidPageId, []⟩) with
        rootPageId := c.2.id } : BPlusTree K V).setParent invalidPageId c.2.id).drop
          id .write) := by
  rw [coalesceOrRedistribute]
  simp only [hpage, Option.bind_eq_bind, Option.bind_some, adjustRoot]
  rfl

/-- A root that has two children stays. -/
theorem coalesceOrRedistribute_root_stays {m : Nat} {cs : List (K × BTree K V h)}
    (hpage : s.pages id = some (.internal ⟨m, invalidPageId, slots cs⟩)) (hlen : 2 ≤ cs.length)
    (n : Nat) : s.coalesceOrRedistribute (n + 1) id = some (false, s.drop id .write) := by
  have hone : ¬ (slots cs).length = 1 := by
    rw [length_slots]
    omega
  rw [coalesceOrRedistribute]
  simp only [hpage, Option.bind_eq_bind, Option.bind_some, adjustRoot, if_neg hone]
  rfl

end Root

/-! ## `Remove` at the leaf -/

section Leaf

variable [LinearOrder K] {s : BPlusTree K V} {id : PageId} {page : LeafPage K V} {key : K} {v : V}
  {l r : List (K × V)}

theorem removeFromLeaf_absent (hpage : s.pages id = some (.leaf page))
    (hremove : page.removeAndDeleteRecord key = page) (n : Nat) :
    s.removeFromLeaf n id key = some (s.drop id .write) := by
  simp only [removeFromLeaf, leafAt, hpage, Option.bind_eq_bind, Option.bind_some, hremove, if_true]
  rfl

/-- The entry is removed, and what follows depends on the size of the leaf. -/
theorem removeFromLeaf_present (hpage : s.pages id = some (.leaf page))
    (harray : page.array = l ++ (key, v) :: r)
    (hremove : page.removeAndDeleteRecord key = { page with array := l ++ r }) (n : Nat) :
    s.removeFromLeaf n id key =
      if (l ++ r).length < page.maxSize / 2 then
        ((s.write id (.leaf { page with array := l ++ r })).coalesceOrRedistribute n id).map
          Prod.snd
      else some ((s.write id (.leaf { page with array := l ++ r })).drop id .write) := by
  have hne : ¬ (l ++ r).length = page.array.length := by
    rw [harray]
    simp only [List.length_append, List.length_cons]
    omega
  simp only [removeFromLeaf, leafAt, hpage, Option.bind_eq_bind, Option.bind_some, hremove,
    if_neg hne, TreePage.getMinSize, TreePage.isLeafPage, if_true, TreePage.getMaxSize,
    Option.map_eq_bind]
  rfl

end Leaf

end BPlusTree

end OneBase
