import OneBase.Index.TreeStore

/-!
# The steps of `Insert`

One equation for each way through `InsertIntoParent` and through the end of `Insert`, on
pages with known children: the page has room, it is split and its parent is next, or it is
the root and gets a parent.
-/

namespace OneBase

namespace BPlusTree

open BTree

variable {K V : Type} [LinearOrder K] [Inhabited K] [Inhabited V] {h : Nat}

/-! ## One step of `InsertIntoParent` -/

section Step

variable {s : BPlusTree K V} {id p : PageId} {im : Nat} {l r : List (K × BTree K V h)}
  {c : K × BTree K V h} {t₁ t₂ : BTree K V h}

omit [LinearOrder K] [Inhabited K] [Inhabited V] in
/-- The page of the parent after `InsertNodeAfter`. -/
theorem insertNodeAfter_slots (hdistinct : ∀ x ∈ l, x.2.id ≠ c.2.id) (hid : t₁.id = c.2.id)
    (k₁ : K) :
    (⟨im, p, slots (l ++ c :: r)⟩ : InternalPage K).insertNodeAfter c.2.id k₁ t₂.id =
      ⟨im, p, slots (l ++ ([(c.1, t₁), (k₁, t₂)] ++ r))⟩ := by
  have harray : slots (l ++ c :: r) = slots l ++ (c.1, c.2.id) :: slots r := by
    simp [slots]
  have hl : ∀ x ∈ slots l, x.2 ≠ (c.1, c.2.id).2 := by
    intro x hx
    obtain ⟨c', hc', rfl⟩ := List.mem_map.mp hx
    exact hdistinct c' hc'
  have heq :=
    @InternalPage.insertNodeAfter_eq K ⟨im, p, slots (l ++ c :: r)⟩ _ _ _ harray hl k₁ t₂.id
  rw [heq]
  simp [slots, hid]

omit [LinearOrder K] [Inhabited V] in
/-- **The parent has room.** -/
theorem insertIntoParent_room (hpage : s.pages id = some (.internal ⟨im, p, slots (l ++ c :: r)⟩))
    (hdistinct : ∀ x ∈ l, x.2.id ≠ c.2.id) (hid : t₁.id = c.2.id)
    (hroom : l.length + r.length + 2 ≤ im) (k₁ : K) (n : Nat) :
    s.insertIntoParent (n + 1) id c.2.id k₁ t₂.id =
      some { s with
        pages := Function.update s.pages id
          (some (.internal ⟨im, p, slots (l ++ ([(c.1, t₁), (k₁, t₂)] ++ r))⟩))
        log := .release id .write :: .acquire id .write :: s.log } := by
  have hpage' : (s.fetchPage id .write).internalAt id = some ⟨im, p, slots (l ++ c :: r)⟩ := by
    simp only [internalAt, fetchPage, hpage]
  have hlen : ¬ im < (slots (l ++ ([(c.1, t₁), (k₁, t₂)] ++ r))).length := by
    simp only [slots, List.length_map, List.length_append, List.length_cons, List.length_nil]
    omega
  simp only [insertIntoParent, hpage', Option.bind_eq_bind, Option.bind_some,
    insertNodeAfter_slots hdistinct hid, if_neg hlen]
  rfl

/-- The store after the page `id` was split: `a` stays, `(k, x)` and `b` go to the new page
`new`, which gets the parent `q`. -/
def splitPages (store : PageId → Option (TreePage K V)) (id new : PageId) (im : Nat) (p q : PageId)
    (a : List (K × BTree K V h)) (x : BTree K V h) (b : List (K × BTree K V h)) :
    PageId → Option (TreePage K V) := fun i =>
  if i = new then some (.internal ⟨im, q, (default, x.id) :: slots b⟩)
  else if i = id then some (.internal ⟨im, p, slots a⟩)
  else if i = x.id ∨ i ∈ b.map (fun c => c.2.id) then
    (store i).map (TreePage.setParentPageId new)
  else store i

omit [LinearOrder K] [Inhabited K] [Inhabited V] in
/-- The store after a new root was written above two pages. -/
theorem update_newRoot (store store' : PageId → Option (TreePage K V)) {id new root : PageId}
    (page : Option (TreePage K V)) (hid : root ≠ id) (hnew : root ≠ new)
    (hsame : ∀ i, i ≠ id → i ≠ new → store i = store' i) :
    Function.update (Function.update (Function.update store root page) id (store' id)) new
      (store' new) = Function.update store' root page := by
  funext i
  by_cases hi : i = new
  · subst hi
    rw [Function.update_self, Function.update_of_ne hnew.symm]
  · by_cases hi' : i = id
    · subst hi'
      rw [Function.update_of_ne hi, Function.update_self, Function.update_of_ne hid.symm]
    · rw [Function.update_of_ne hi, Function.update_of_ne hi']
      by_cases hr : i = root
      · subst hr
        rw [Function.update_self, Function.update_self]
      · rw [Function.update_of_ne hr, Function.update_of_ne hr, hsame i hi' hi]

section Split

variable {a b : List (K × BTree K V h)} {x : K × BTree K V h} {k₁ : K}

omit [LinearOrder K] [Inhabited V] in
theorem slots_split (hcs : l ++ ([(c.1, t₁), (k₁, t₂)] ++ r) = a ++ x :: b)
    (ha : a.length = (l.length + r.length + 2) / 2) (recipient : InternalPage K)
    (hrecipient : recipient.array = []) :
    let page : InternalPage K := ⟨im, p, slots (l ++ ([(c.1, t₁), (k₁, t₂)] ++ r))⟩
    page.keyAt (page.array.length / 2) = x.1 ∧
      page.moveHalfTo recipient =
        (⟨im, p, slots a⟩, { recipient with array := (default, x.2.id) :: slots b }) := by
  have hslots : slots (a ++ x :: b) = slots a ++ (x.1, x.2.id) :: slots b := by simp [slots]
  have hlen : (slots (a ++ x :: b)).length / 2 = (slots a).length := by
    have hlen := congrArg List.length hcs
    simp only [List.length_append, List.length_cons, List.length_nil] at hlen
    simp only [slots, List.length_map, List.length_append, List.length_cons]
    omega
  have hkey : recipient.keyAt 0 = default := by
    rw [InternalPage.keyAt, hrecipient]
    rfl
  rw [hslots] at hlen
  rw [hcs, hslots]
  constructor
  · simp only [InternalPage.keyAt, hlen]
    simp [List.getD_eq_getElem?_getD]
  · simp only [InternalPage.moveHalfTo, hlen, hkey, List.take_left, List.drop_left]

/-- The state in which the children of the new page get their parent. -/
def halved (s : BPlusTree K V) (id p : PageId) (a : List (K × BTree K V h)) (x : BTree K V h)
    (b : List (K × BTree K V h)) : BPlusTree K V :=
  (((s.fetchPage id .write).newPageGuarded
    (.internal (InternalPage.init s.internalMaxSize))).2.write
    id (.internal ⟨s.internalMaxSize, p, slots a⟩)).write s.nextPageId
    (.internal ⟨s.internalMaxSize, invalidPageId, (default, x.id) :: slots b⟩)

omit [LinearOrder K] [Inhabited V] in
theorem halved_log (hnew : id ≠ s.nextPageId) (hlog : s.log.Ok []) :
    (s.halved id p a x.2 b).log.Ok [(s.nextPageId, .basic), (id, .write)] :=
  (hlog.acquire (by simp)).acquire fun g hg => by
    rw [List.mem_singleton.mp hg]
    exact hnew

omit [LinearOrder K] [Inhabited V] in
/-- No guard is on a child while its parent is set. -/
theorem halved_free (hx : x.2.id ≠ id ∧ x.2.id ≠ s.nextPageId)
    (hb : ∀ c ∈ b, c.2.id ≠ id ∧ c.2.id ≠ s.nextPageId) :
    ∀ c ∈ ((default : K), x.2.id) :: slots b,
      ∀ g ∈ [(s.nextPageId, GuardKind.basic), (id, .write)], g.1 ≠ c.2 := by
  simp only [List.forall_mem_cons]
  refine ⟨⟨hx.2.symm, hx.1.symm, by simp⟩, fun e he => ?_⟩
  obtain ⟨c', hc', rfl⟩ := List.mem_map.mp he
  exact ⟨(hb c' hc').2.symm, (hb c' hc').1.symm, by simp⟩

omit [LinearOrder K] [Inhabited V] in
/-- The pages after the loop over the children of the new page. -/
theorem halved_setParents (hnew : id ≠ s.nextPageId) (hx : x.2.id ≠ id ∧ x.2.id ≠ s.nextPageId)
    (hb : ∀ c ∈ b, c.2.id ≠ id ∧ c.2.id ≠ s.nextPageId) (hlog : s.log.Ok []) :
    ∃ log, GuardLog.Ok log [(s.nextPageId, .basic), (id, .write)] ∧
      (s.halved id p a x.2 b).setParents s.nextPageId ((default, x.2.id) :: slots b) =
        { s with
          pages := splitPages s.pages id s.nextPageId s.internalMaxSize p invalidPageId a x.2 b
          nextPageId := s.nextPageId + 1
          log } := by
  obtain ⟨log, heq, hloop⟩ := setParents_eq s.nextPageId ((default, x.2.id) :: slots b)
    (s.halved id p a x.2 b)
  refine ⟨log, hloop _ (halved_log hnew hlog) (halved_free hx hb), ?_⟩
  have hmem : ∀ i, i ∈ (((default : K), x.2.id) :: slots b).map Prod.snd ↔
      i = x.2.id ∨ i ∈ b.map fun c => c.2.id := by
    intro i
    simp [slots]
  have hchild : ∀ i, (i = x.2.id ∨ i ∈ b.map fun c => c.2.id) → i ≠ id ∧ i ≠ s.nextPageId := by
    rintro i (rfl | hi)
    · exact hx
    · obtain ⟨c, hc, rfl⟩ := List.mem_map.mp hi
      exact hb c hc
  have hpages : (fun i => if i ∈ (((default : K), x.2.id) :: slots b).map Prod.snd then
      ((s.halved id p a x.2 b).pages i).map (TreePage.setParentPageId s.nextPageId)
      else (s.halved id p a x.2 b).pages i) =
      splitPages s.pages id s.nextPageId s.internalMaxSize p invalidPageId a x.2 b := by
    funext i
    simp only [splitPages, hmem]
    by_cases hi : i = s.nextPageId
    · subst hi
      rw [if_neg fun h => (hchild _ h).2 rfl, if_pos rfl]
      exact Function.update_self ..
    · by_cases hi' : i = id
      · subst hi'
        rw [if_neg fun h => (hchild _ h).1 rfl, if_neg hi, if_pos rfl]
        exact (Function.update_of_ne hi _ _).trans (Function.update_self ..)
      · have hsame : (s.halved id p a x.2 b).pages i = s.pages i :=
          (Function.update_of_ne hi _ _).trans
            ((Function.update_of_ne hi' _ _).trans (Function.update_of_ne hi _ _))
        rw [hsame, if_neg hi, if_neg hi']
  rw [heq, hpages]
  rfl

omit [LinearOrder K] [Inhabited V] in
/-- **The parent is split**, and `InsertIntoParent` goes on with its parent. -/
theorem insertIntoParent_split
    (hpage : s.pages id = some (.internal ⟨s.internalMaxSize, p, slots (l ++ c :: r)⟩))
    (hdistinct : ∀ x ∈ l, x.2.id ≠ c.2.id) (hid : t₁.id = c.2.id)
    (hfull : s.internalMaxSize < l.length + r.length + 2)
    (hcs : l ++ ([(c.1, t₁), (k₁, t₂)] ++ r) = a ++ x :: b)
    (ha : a.length = (l.length + r.length + 2) / 2) (hp : p ≠ invalidPageId)
    (hnew : id ≠ s.nextPageId) (hx : x.2.id ≠ id ∧ x.2.id ≠ s.nextPageId)
    (hb : ∀ c ∈ b, c.2.id ≠ id ∧ c.2.id ≠ s.nextPageId) (hlog : s.log.Ok []) (n : Nat) :
    ∃ log, GuardLog.Ok log [] ∧
      s.insertIntoParent (n + 1) id c.2.id k₁ t₂.id =
        ({ s with
          pages := splitPages s.pages id s.nextPageId s.internalMaxSize p p a x.2 b
          nextPageId := s.nextPageId + 1
          log } : BPlusTree K V).insertIntoParent n p id x.1 s.nextPageId := by
  have hpage' : (s.fetchPage id .write).internalAt id =
      some ⟨s.internalMaxSize, p, slots (l ++ c :: r)⟩ := by
    simp only [internalAt, fetchPage, hpage]
  have hlen : s.internalMaxSize < (slots (l ++ ([(c.1, t₁), (k₁, t₂)] ++ r))).length := by
    simp only [slots, List.length_map, List.length_append, List.length_cons, List.length_nil]
    omega
  obtain ⟨hkey, hmove⟩ := @slots_split K V _ h p s.internalMaxSize l r c t₁ t₂ a b x k₁ hcs ha
    (InternalPage.init s.internalMaxSize) rfl
  obtain ⟨log, hlog', heq⟩ := halved_setParents (p := p) (a := a) hnew hx hb hlog
  have hrun : s.insertIntoParent (n + 1) id c.2.id k₁ t₂.id =
      (((((s.halved id p a x.2 b).setParents s.nextPageId ((default, x.2.id) :: slots b)).write
        s.nextPageId (.internal ⟨s.internalMaxSize, p, (default, x.2.id) :: slots b⟩)).drop id
        .write).drop s.nextPageId .basic).insertIntoParent n p id x.1 s.nextPageId := by
    rw [insertIntoParent]
    simp only [hpage', Option.bind_eq_bind, Option.bind_some,
      insertNodeAfter_slots hdistinct hid, if_pos hlen, newPageGuarded]
    simp only [fetchPage, hkey, hmove, if_neg hp]
    rfl
  refine ⟨_, (hlog'.release_second hnew.symm).release_head, ?_⟩
  have hpages : Function.update
      (splitPages s.pages id s.nextPageId s.internalMaxSize p invalidPageId a x.2 b) s.nextPageId
      (some (.internal ⟨s.internalMaxSize, p, (default, x.2.id) :: slots b⟩)) =
      splitPages s.pages id s.nextPageId s.internalMaxSize p p a x.2 b := by
    funext i
    by_cases hi : i = s.nextPageId
    · subst hi
      simp [splitPages]
    · simp [splitPages, hi]
  rw [hrun, heq, ← hpages]
  rfl

omit [LinearOrder K] [Inhabited V] in
/-- **The root is split** and gets a parent. -/
theorem insertIntoParent_split_root
    (hpage : s.pages id = some (.internal ⟨s.internalMaxSize, invalidPageId, slots (l ++ c :: r)⟩))
    (hdistinct : ∀ x ∈ l, x.2.id ≠ c.2.id) (hid : t₁.id = c.2.id)
    (hfull : s.internalMaxSize < l.length + r.length + 2)
    (hcs : l ++ ([(c.1, t₁), (k₁, t₂)] ++ r) = a ++ x :: b)
    (ha : a.length = (l.length + r.length + 2) / 2)
    (hnew : id < s.nextPageId) (hx : x.2.id ≠ id ∧ x.2.id ≠ s.nextPageId)
    (hb : ∀ c ∈ b, c.2.id ≠ id ∧ c.2.id ≠ s.nextPageId) (hlog : s.log.Ok []) (n : Nat) :
    ∃ log, GuardLog.Ok log [] ∧
      s.insertIntoParent (n + 1) id c.2.id k₁ t₂.id =
        some { s with
          rootPageId := s.nextPageId + 1
          pages := Function.update
            (splitPages s.pages id s.nextPageId s.internalMaxSize (s.nextPageId + 1)
              (s.nextPageId + 1) a x.2 b) (s.nextPageId + 1)
            (some (.internal ⟨s.internalMaxSize, invalidPageId,
              [(default, id), (x.1, s.nextPageId)]⟩))
          nextPageId := s.nextPageId + 1 + 1
          log } := by
  have hpage' : (s.fetchPage id .write).internalAt id =
      some ⟨s.internalMaxSize, invalidPageId, slots (l ++ c :: r)⟩ := by
    simp only [internalAt, fetchPage, hpage]
  have hlen : s.internalMaxSize < (slots (l ++ ([(c.1, t₁), (k₁, t₂)] ++ r))).length := by
    simp only [slots, List.length_map, List.length_append, List.length_cons, List.length_nil]
    omega
  obtain ⟨hkey, hmove⟩ := @slots_split K V _ h invalidPageId s.internalMaxSize l r c t₁ t₂ a b x
    k₁ hcs ha (InternalPage.init s.internalMaxSize) rfl
  obtain ⟨log, hlog', heq⟩ := halved_setParents (p := invalidPageId) (a := a)
    (Int.ne_of_lt hnew) hx hb hlog
  have hrun : s.insertIntoParent (n + 1) id c.2.id k₁ t₂.id =
      some (
        let s₁ := (s.halved id invalidPageId a x.2 b).setParents s.nextPageId
          ((default, x.2.id) :: slots b)
        let s₂ := (s₁.growRoot id x.1 s.nextPageId).2
        ((((s₂.write id (.internal ⟨s.internalMaxSize, s₁.nextPageId, slots a⟩)).write s.nextPageId
          (.internal ⟨s.internalMaxSize, s₁.nextPageId, (default, x.2.id) :: slots b⟩)).drop
          s₁.nextPageId .basic).drop s.nextPageId .basic).drop id .write) := by
    rw [insertIntoParent]
    simp only [hpage', Option.bind_eq_bind, Option.bind_some,
      insertNodeAfter_slots hdistinct hid, if_pos hlen, newPageGuarded]
    simp only [fetchPage, hkey, hmove, if_true]
    rfl
  have hlog₁ : GuardLog.Ok (.acquire (s.nextPageId + 1) .basic :: log) _ :=
    hlog'.acquire fun g hg => by
      rcases List.mem_cons.mp hg with rfl | hg
      · exact Int.ne_of_lt (Int.lt_succ s.nextPageId)
      · rw [List.mem_singleton.mp hg]
        exact Int.ne_of_lt (Int.lt_trans hnew (Int.lt_succ s.nextPageId))
  refine ⟨_, hlog₁.release_head.release_head.release_head, ?_⟩
  rw [hrun, heq]
  refine congrArg some ?_
  have hpages := update_newRoot
    (splitPages s.pages id s.nextPageId s.internalMaxSize invalidPageId invalidPageId a x.2 b)
    (splitPages s.pages id s.nextPageId s.internalMaxSize (s.nextPageId + 1)
      (s.nextPageId + 1) a x.2 b)
    (some (.internal ⟨s.internalMaxSize, invalidPageId, [(default, id), (x.1, s.nextPageId)]⟩))
    (Int.ne_of_gt (Int.lt_trans hnew (Int.lt_succ _))) (Int.ne_of_gt (Int.lt_succ _))
    (fun i hi hi' => by simp [splitPages, hi, hi'])
  have hleft : splitPages s.pages id s.nextPageId s.internalMaxSize (s.nextPageId + 1)
      (s.nextPageId + 1) a x.2 b id =
      some (.internal ⟨s.internalMaxSize, s.nextPageId + 1, slots a⟩) := by
    simp [splitPages, Int.ne_of_lt hnew]
  have hright : splitPages s.pages id s.nextPageId s.internalMaxSize (s.nextPageId + 1)
      (s.nextPageId + 1) a x.2 b s.nextPageId =
      some (.internal ⟨s.internalMaxSize, s.nextPageId + 1, (default, x.2.id) :: slots b⟩) := by
    simp [splitPages]
  rw [hleft, hright] at hpages
  rw [← hpages]
  rfl

end Split

end Step

/-! ## `Insert` at the leaf -/

section Leaf

variable {s : BPlusTree K V} {id : PageId} {page : LeafPage K V} {key : K} {value : V}
  {l r a b : List (K × V)} {x : K × V}

omit [LinearOrder K] [Inhabited K] [Inhabited V] in
theorem leafAt_eq (hpage : s.pages id = some (.leaf page)) : s.leafAt id = some page := by
  simp only [leafAt, hpage]

theorem insertIntoLeaf_duplicate (hpage : s.pages id = some (.leaf page))
    (hinsert : page.insert key value = page) (n : Nat) :
    s.insertIntoLeaf n id key value = some (false, s.drop id .write) := by
  simp only [insertIntoLeaf, leafAt_eq hpage, Option.bind_eq_bind, Option.bind_some, hinsert,
    if_true]
  rfl

theorem insertIntoLeaf_room (hpage : s.pages id = some (.leaf page)) (harray : page.array = l ++ r)
    (hinsert : page.insert key value = { page with array := l ++ (key, value) :: r })
    (hroom : page.array.length < page.maxSize) (n : Nat) :
    s.insertIntoLeaf n id key value =
      some (true, { s with
        pages := Function.update s.pages id
          (some (.leaf { page with array := l ++ (key, value) :: r }))
        log := .release id .write :: s.log }) := by
  have hlen : (l ++ (key, value) :: r).length = page.array.length + 1 := by
    rw [harray]
    simp only [List.length_append, List.length_cons]
    omega
  have hne : ¬ (l ++ (key, value) :: r).length = page.array.length := by omega
  have hmax : ¬ page.maxSize < (l ++ (key, value) :: r).length := by omega
  simp only [insertIntoLeaf, leafAt_eq hpage, Option.bind_eq_bind, Option.bind_some, hinsert,
    if_neg hne, if_neg hmax]
  rfl

/-- The store after the leaf `id` was split. -/
def splitLeafPages (store : PageId → Option (TreePage K V)) (id new : PageId)
    (left right : LeafPage K V) : PageId → Option (TreePage K V) := fun i =>
  if i = new then some (.leaf right) else if i = id then some (.leaf left) else store i

omit [LinearOrder K] [Inhabited K] [Inhabited V] in
theorem moveHalfTo_split (hsplit : l ++ (key, value) :: r = a ++ x :: b)
    (ha : a.length = (l.length + r.length + 1) / 2) (recipient : LeafPage K V) :
    ({ page with array := l ++ (key, value) :: r } : LeafPage K V).moveHalfTo recipient =
      ({ page with array := a }, { recipient with array := x :: b }) := by
  have hlen : (a ++ x :: b).length / 2 = a.length := by
    have hlen := congrArg List.length hsplit
    simp only [List.length_append, List.length_cons] at hlen ⊢
    omega
  simp only [LeafPage.moveHalfTo, hsplit, hlen, List.take_left, List.drop_left]

/-- **The leaf is split**, and `InsertIntoParent` goes on with its parent. -/
theorem insertIntoLeaf_split (hpage : s.pages id = some (.leaf page)) (harray : page.array = l ++ r)
    (hinsert : page.insert key value = { page with array := l ++ (key, value) :: r })
    (hfull : page.maxSize ≤ page.array.length) (hsplit : l ++ (key, value) :: r = a ++ x :: b)
    (ha : a.length = (l.length + r.length + 1) / 2) (hp : page.parentPageId ≠ invalidPageId)
    (hnew : id ≠ s.nextPageId) (hlog : s.log.Ok [(id, .write)]) (n : Nat) :
    ∃ log, GuardLog.Ok log [] ∧
      s.insertIntoLeaf n id key value =
        (({ s with
          pages := splitLeafPages s.pages id s.nextPageId
            { page with nextPageId := s.nextPageId, array := a }
            ⟨s.leafMaxSize, page.parentPageId, page.nextPageId, x :: b⟩
          nextPageId := s.nextPageId + 1
          log } : BPlusTree K V).insertIntoParent n page.parentPageId id x.1 s.nextPageId).map
          fun s => (true, s) := by
  have hlen : (l ++ (key, value) :: r).length = page.array.length + 1 := by
    rw [harray]
    simp only [List.length_append, List.length_cons]
    omega
  have hne : ¬ (l ++ (key, value) :: r).length = page.array.length := by omega
  have hmax : page.maxSize < (l ++ (key, value) :: r).length := by omega
  have hlog₁ : GuardLog.Ok (.acquire s.nextPageId .basic :: s.log) _ :=
    hlog.acquire fun g hg => by
      rw [List.mem_singleton.mp hg]
      exact hnew
  refine ⟨_, (hlog₁.release_second hnew.symm).release_head, ?_⟩
  simp only [insertIntoLeaf, leafAt_eq hpage, Option.bind_eq_bind, Option.bind_some, hinsert,
    if_neg hne, if_pos hmax, newPageGuarded, moveHalfTo_split hsplit ha, if_neg hp]
  have hpages : splitLeafPages s.pages id s.nextPageId
      { page with nextPageId := s.nextPageId, array := a }
      ⟨s.leafMaxSize, page.parentPageId, page.nextPageId, x :: b⟩ =
      Function.update (Function.update (Function.update s.pages s.nextPageId
        (some (.leaf (LeafPage.init s.leafMaxSize)))) id
        (some (.leaf { page with nextPageId := s.nextPageId, array := a }))) s.nextPageId
        (some (.leaf ⟨s.leafMaxSize, page.parentPageId, page.nextPageId, x :: b⟩)) := by
    funext i
    by_cases hi : i = s.nextPageId
    · simp [splitLeafPages, hi]
    · by_cases hi' : i = id
      · simp [splitLeafPages, hi', hnew]
      · simp [splitLeafPages, hi, hi']
  rw [hpages]
  exact Option.map_eq_bind.symm

/-- **The leaf is the root and is split**: it gets a parent. -/
theorem insertIntoLeaf_split_root (hpage : s.pages id = some (.leaf page))
    (harray : page.array = l ++ r)
    (hinsert : page.insert key value = { page with array := l ++ (key, value) :: r })
    (hfull : page.maxSize ≤ page.array.length) (hsplit : l ++ (key, value) :: r = a ++ x :: b)
    (ha : a.length = (l.length + r.length + 1) / 2) (hp : page.parentPageId = invalidPageId)
    (hnew : id < s.nextPageId) (hlog : s.log.Ok [(id, .write)]) (n : Nat) :
    ∃ log, GuardLog.Ok log [] ∧
      s.insertIntoLeaf n id key value =
        some (true, { s with
          rootPageId := s.nextPageId + 1
          pages := Function.update (splitLeafPages s.pages id s.nextPageId
            { page with parentPageId := s.nextPageId + 1, nextPageId := s.nextPageId, array := a }
            ⟨s.leafMaxSize, s.nextPageId + 1, page.nextPageId, x :: b⟩) (s.nextPageId + 1)
            (some (.internal ⟨s.internalMaxSize, invalidPageId,
              [(default, id), (x.1, s.nextPageId)]⟩))
          nextPageId := s.nextPageId + 1 + 1
          log }) := by
  have hlen : (l ++ (key, value) :: r).length = page.array.length + 1 := by
    rw [harray]
    simp only [List.length_append, List.length_cons]
    omega
  have hne : ¬ (l ++ (key, value) :: r).length = page.array.length := by omega
  have hmax : page.maxSize < (l ++ (key, value) :: r).length := by omega
  have hlt := Int.lt_succ s.nextPageId
  have hlog₁ : GuardLog.Ok (.acquire s.nextPageId .basic :: s.log) _ :=
    hlog.acquire fun g hg => by
      rw [List.mem_singleton.mp hg]
      exact Int.ne_of_lt hnew
  have hlog₂ : GuardLog.Ok (.acquire (s.nextPageId + 1) .basic :: _) _ :=
    hlog₁.acquire fun g hg => by
      rcases List.mem_cons.mp hg with rfl | hg
      · exact Int.ne_of_lt hlt
      · rw [List.mem_singleton.mp hg]
        exact Int.ne_of_lt (Int.lt_trans hnew hlt)
  refine ⟨_, hlog₂.release_head.release_head.release_head, ?_⟩
  simp only [insertIntoLeaf, leafAt_eq hpage, Option.bind_eq_bind, Option.bind_some, hinsert,
    if_neg hne, if_pos hmax, newPageGuarded, moveHalfTo_split hsplit ha, if_pos hp]
  have hpages := update_newRoot
    (Function.update s.pages s.nextPageId (some (.leaf (LeafPage.init s.leafMaxSize))))
    (splitLeafPages s.pages id s.nextPageId
      { page with parentPageId := s.nextPageId + 1, nextPageId := s.nextPageId, array := a }
      ⟨s.leafMaxSize, s.nextPageId + 1, page.nextPageId, x :: b⟩)
    (some (.internal ⟨s.internalMaxSize, invalidPageId, [(default, id), (x.1, s.nextPageId)]⟩))
    (Int.ne_of_gt (Int.lt_trans hnew hlt)) (Int.ne_of_gt hlt)
    (fun i hi hi' => by simp [splitLeafPages, hi, hi'])
  have hleft : ∀ left right : LeafPage K V,
      splitLeafPages s.pages id s.nextPageId left right id = some (.leaf left) :=
    fun left right => by simp [splitLeafPages, Int.ne_of_lt hnew]
  have hright : ∀ left right : LeafPage K V,
      splitLeafPages s.pages id s.nextPageId left right s.nextPageId = some (.leaf right) :=
    fun left right => by simp [splitLeafPages]
  rw [hleft, hright] at hpages
  rw [← hpages]
  rfl

end Leaf

end BPlusTree

end OneBase
