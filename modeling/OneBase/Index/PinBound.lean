import OneBase.Index.PageRefs
import OneBase.Index.PoolService
import OneBase.Index.RemoveSteps

/-!
# How many pages an operation pins

A guard is given back before the recursion goes up, so the bound does not depend on the height:
`Insert` has guards on three pages at most, `Remove` on a page, its parent, its sibling and a
child of one of the two.

A run is followed in the part of the store that belongs to the tree. The pages of the part
refer only to pages that exist, and the run in the whole store makes the same calls.

- `Tracked`: the part and the store at some point of a run, with the live guards.
- `Follows`: the run in the store has the result of the run in the part.
- `Tracked.insertIntoParent`, `Tracked.coalesceOrRedistribute`: the two recursions.
-/

namespace OneBase

namespace BPlusTree

variable {K V : Type}

/-- **A point of a run**: `s` is the part of the tree, `pages` are all pages. The log started
with `next` as the next page id. -/
structure Tracked (next : PageId) (s : BPlusTree K V) (pages : PageId → Option (TreePage K V))
    (live : List (PageId × GuardKind)) : Prop where
  pos : 0 < s.nextPageId
  more : ∀ p page, s.pages p = some page → pages p = some page
  exist : ∀ p page, s.pages p = some page → IsPage s.nextPageId p
  refer : ∀ p page, s.pages p = some page → page.RefersTo s.nextPageId
  nextPageId : s.nextPageId = s.log.nextPageId next
  live : s.log.live.Perm live
  fits : s.log.Fits next 4

namespace Tracked

variable {next : PageId} {s : BPlusTree K V} {pages : PageId → Option (TreePage K V)}
  {live rest : List (PageId × GuardKind)} {p q r : PageId} {kind kind' kind'' : GuardKind}

/-! ### Guards -/

theorem fetchPage (h : Tracked next s pages live) (hp : IsPage s.nextPageId p)
    (hkind : kind ≠ .basic) (hon : OnPages 4 ((p, kind) :: live)) :
    Tracked next (s.fetchPage p kind) pages ((p, kind) :: live) where
  pos := h.pos
  more := h.more
  exist := h.exist
  refer := h.refer
  nextPageId := by
    show s.nextPageId = GuardLog.nextPageId next (.acquire p kind :: s.log)
    rw [GuardLog.nextPageId, if_neg hkind]
    exact h.nextPageId
  live := h.live.cons _
  fits := by
    refine ⟨?_, hon.perm (h.live.cons _), h.fits⟩
    rw [if_neg hkind, ← h.nextPageId]
    exact hp

theorem drop (h : Tracked next s pages live) (hperm : live.Perm ((p, kind) :: rest)) :
    Tracked next (s.drop p kind) pages rest where
  pos := h.pos
  more := h.more
  exist := h.exist
  refer := h.refer
  nextPageId := h.nextPageId
  live := by
    have herase := (h.live.trans hperm).erase (p, kind)
    rwa [List.erase_cons_head] at herase
  fits := ⟨(h.live.trans hperm).mem_iff.mpr List.mem_cons_self, h.fits⟩

theorem dropFirst (h : Tracked next s pages ((p, kind) :: rest)) :
    Tracked next (s.drop p kind) pages rest :=
  h.drop (List.Perm.refl _)

theorem dropSecond (h : Tracked next s pages ((q, kind') :: (p, kind) :: rest)) :
    Tracked next (s.drop p kind) pages ((q, kind') :: rest) :=
  h.drop (List.Perm.swap _ _ _)

theorem dropThird (h : Tracked next s pages ((r, kind'') :: (q, kind') :: (p, kind) :: rest)) :
    Tracked next (s.drop p kind) pages ((r, kind'') :: (q, kind') :: rest) :=
  h.drop (((List.Perm.swap _ _ _).cons _).trans (List.Perm.swap _ _ _))

/-! ### Pages -/

theorem write (h : Tracked next s pages live) (hp : IsPage s.nextPageId p)
    (page : TreePage K V) (hpage : page.RefersTo s.nextPageId) :
    Tracked next (s.write p page) (Function.update pages p (some page)) live := by
  have hcases : ∀ q page', (s.write p page).pages q = some page' →
      (q = p ∧ page' = page) ∨ (q ≠ p ∧ s.pages q = some page') := by
    intro q page' hq
    change Function.update s.pages p (some page) q = some page' at hq
    by_cases hqp : q = p
    · subst hqp
      rw [Function.update_self] at hq
      exact .inl ⟨rfl, (Option.some.inj hq).symm⟩
    · rw [Function.update_of_ne hqp] at hq
      exact .inr ⟨hqp, hq⟩
  refine ⟨h.pos, fun q page' hq => ?_, fun q page' hq => ?_, fun q page' hq => ?_, h.nextPageId,
    h.live, h.fits⟩
  · rcases hcases q page' hq with ⟨rfl, rfl⟩ | ⟨hqp, hq⟩
    · exact Function.update_self ..
    · rw [Function.update_of_ne hqp]
      exact h.more q page' hq
  · rcases hcases q page' hq with ⟨rfl, rfl⟩ | ⟨-, hq⟩
    · exact hp
    · exact h.exist q page' hq
  · rcases hcases q page' hq with ⟨rfl, rfl⟩ | ⟨-, hq⟩
    · exact hpage
    · exact h.refer q page' hq

theorem setRoot (h : Tracked next s pages live) (rootPageId : PageId) :
    Tracked next { s with rootPageId } pages live :=
  ⟨h.pos, h.more, h.exist, h.refer, h.nextPageId, h.live, h.fits⟩

/-- A new page, which may refer to itself. -/
theorem newPageGuarded (h : Tracked next s pages live) (page : TreePage K V)
    (hpage : page.RefersTo (s.nextPageId + 1)) (hlen : live.length ≤ 3) :
    Tracked next (s.newPageGuarded page).2 (Function.update pages s.nextPageId (some page))
      ((s.nextPageId, .basic) :: live) := by
  have hle : s.nextPageId ≤ s.nextPageId + 1 := Int.le_of_lt (Int.lt_succ _)
  have hpos := h.pos
  have hgrown : Tracked next
      { s with nextPageId := s.nextPageId + 1, log := .acquire s.nextPageId .basic :: s.log } pages
      ((s.nextPageId, .basic) :: live) := by
    refine ⟨Int.lt_of_lt_of_le h.pos hle, h.more, fun q page' hq => (h.exist q page' hq).mono hle,
      fun q page' hq => (h.refer q page' hq).mono hle, ?_, h.live.cons _, ?_, ?_, h.fits⟩
    · show s.nextPageId + 1 = GuardLog.nextPageId next (.acquire s.nextPageId .basic :: s.log)
      rw [GuardLog.nextPageId, if_pos rfl, ← h.nextPageId]
    · rw [if_pos rfl]
      exact h.nextPageId
    · exact OnPages.of_length (Nat.succ_le_succ (h.live.length_eq ▸ hlen))
  exact hgrown.write ⟨Int.le_of_lt hpos, Int.lt_succ _⟩ page hpage

/-- A child gets its parent. -/
theorem setParent (h : Tracked next s pages live) {parent child : PageId}
    (hparent : IsParent s.nextPageId parent) (hchild : IsPage s.nextPageId child)
    (hon : OnPages 4 ((child, .write) :: live)) :
    Tracked next (s.setParent parent child) ({ s with pages }.setParent parent child).pages
      live := by
  have hfetched := h.fetchPage hchild (by decide) hon
  have hset : Tracked next { s.fetchPage child .write with
      pages := Function.update s.pages child
        ((s.pages child).map (TreePage.setParentPageId parent)) }
      (Function.update pages child ((pages child).map (TreePage.setParentPageId parent)))
      ((child, .write) :: live) := by
    cases hpage : s.pages child with
    | none =>
      -- the part does not have the page
      refine ⟨h.pos, fun q page hq => ?_, fun q page hq => ?_, fun q page hq => ?_,
        hfetched.nextPageId, hfetched.live, hfetched.fits⟩
      all_goals
        by_cases hqc : q = child
        · subst hqc
          simp at hq
        · simp only [Option.map_none, Function.update_of_ne hqc] at hq ⊢
          first
          | exact h.more q page hq
          | exact h.exist q page hq
          | exact h.refer q page hq
    | some page =>
      rw [h.more child page hpage]
      exact hfetched.write hchild _ ((h.refer child page hpage).setParentPageId hparent)
  exact hset.dropFirst

theorem setParents_nextPageId (s : BPlusTree K V) (parent : PageId) (cs : List (K × PageId)) :
    (s.setParents parent cs).nextPageId = s.nextPageId := by
  obtain ⟨log, heq, -⟩ := setParents_eq parent cs s
  rw [heq]

end Tracked

/-! ## Two runs -/

/-- If the first run has a result, the second one has, and the results are related. -/
def Follows {α : Type} (R : α → α → Prop) (x y : Option α) : Prop :=
  ∀ a, x = some a → ∃ b, y = some b ∧ R a b

namespace Follows

variable {α β : Type} {R : α → α → Prop} {T : β → β → Prop} {x y x' y' : Option α}

theorem none : Follows R none y := fun _ ha => nomatch ha

theorem some {a b : α} (h : R a b) : Follows R (some a) (some b) := by
  rintro _ ⟨⟩
  exact ⟨b, rfl, h⟩

theorem bind {f g : α → Option β} (h : Follows R x y)
    (hfg : ∀ a b, R a b → Follows T (f a) (g b)) : Follows T (x.bind f) (y.bind g) := by
  intro c hc
  obtain ⟨a, rfl, hfa⟩ := Option.bind_eq_some_iff.mp hc
  obtain ⟨b, rfl, hab⟩ := h a rfl
  exact hfg a b hab c hfa

theorem map {f g : α → β} (h : Follows R x y) (hfg : ∀ a b, R a b → T (f a) (g b)) :
    Follows T (x.map f) (y.map g) := by
  intro c hc
  obtain ⟨a, ha, rfl⟩ := Option.map_eq_some_iff.mp hc
  obtain ⟨b, rfl, hab⟩ := h a ha
  exact ⟨g b, rfl, hfg a b hab⟩

theorem ite {c : Prop} [Decidable c] (h : c → Follows R x y) (h' : ¬ c → Follows R x' y') :
    Follows R (if c then x else x') (if c then y else y') := by
  by_cases hc : c
  · rw [if_pos hc, if_pos hc]
    exact h hc
  · rw [if_neg hc, if_neg hc]
    exact h' hc

end Follows

/-- The second state is the first one with more pages. -/
def Mirrors (next : PageId) (live : List (PageId × GuardKind)) (s s' : BPlusTree K V) : Prop :=
  ∃ pages, s' = { s with pages } ∧ Tracked next s pages live

section Reads

variable {α : Type} {R : α → α → Prop} {next : PageId} {s : BPlusTree K V}
  {pages : PageId → Option (TreePage K V)} {live : List (PageId × GuardKind)} {p : PageId}

theorem Tracked.mirrors (h : Tracked next s pages live) :
    Mirrors next live s { s with pages } := ⟨pages, rfl, h⟩

/-- A page of the part is read. -/
theorem Tracked.read (h : Tracked next s pages live) {f g : TreePage K V → Option α}
    (hfg : ∀ page, s.pages p = .some page → IsPage s.nextPageId p → page.RefersTo s.nextPageId →
      Follows R (f page) (g page)) : Follows R ((s.pages p).bind f) ((pages p).bind g) := by
  cases hpage : s.pages p with
  | none => exact .none
  | some page =>
    rw [h.more p page hpage]
    exact hfg page hpage (h.exist p page hpage) (h.refer p page hpage)

theorem Tracked.readInternal (h : Tracked next s pages live) {f g : InternalPage K → Option α}
    (hfg : ∀ page : InternalPage K, IsPage s.nextPageId p →
      IsParent s.nextPageId page.parentPageId → page.Lists s.nextPageId →
      Follows R (f page) (g page)) :
    Follows R ((s.internalAt p).bind f) (({ s with pages }.internalAt p).bind g) := by
  cases hpage : s.pages p with
  | none =>
    simp only [internalAt, hpage]
    exact .none
  | some page =>
    have hrefer := h.refer p page hpage
    have hpage' : pages p = .some page := h.more p page hpage
    cases page with
    | leaf page =>
      simp only [internalAt, hpage]
      exact .none
    | internal page =>
      simp only [internalAt, hpage, hpage', Option.bind_some]
      exact hfg page (h.exist p _ hpage) hrefer.1 hrefer.2

theorem Tracked.readLeaf (h : Tracked next s pages live) {f g : LeafPage K V → Option α}
    (hfg : ∀ page : LeafPage K V, IsPage s.nextPageId p → IsParent s.nextPageId page.parentPageId →
      Follows R (f page) (g page)) :
    Follows R ((s.leafAt p).bind f) (({ s with pages }.leafAt p).bind g) := by
  cases hpage : s.pages p with
  | none =>
    simp only [leafAt, hpage]
    exact .none
  | some page =>
    have hrefer := h.refer p page hpage
    have hpage' : pages p = .some page := h.more p page hpage
    cases page with
    | internal page =>
      simp only [leafAt, hpage]
      exact .none
    | leaf page =>
      simp only [leafAt, hpage, hpage', Option.bind_some]
      exact hfg page (h.exist p _ hpage) hrefer

/-- The loop over children that exist. -/
theorem Tracked.setParents {parent : PageId} (hon : live.length ≤ 3) (cs : List (K × PageId)) :
    ∀ {s : BPlusTree K V} {pages : PageId → Option (TreePage K V)}, Tracked next s pages live →
      IsParent s.nextPageId parent → (∀ e ∈ cs, IsPage s.nextPageId e.2) →
      Mirrors next live (s.setParents parent cs) ({ s with pages }.setParents parent cs) := by
  induction cs with
  | nil => exact fun h _ _ => h.mirrors
  | cons e cs ih =>
    intro s pages h hparent hcs
    rw [List.forall_mem_cons] at hcs
    exact ih (h.setParent hparent hcs.1 (.of_length (Nat.succ_le_succ hon))) hparent hcs.2

end Reads

section Runs

variable [Inhabited K] {next : PageId} {s : BPlusTree K V}
  {pages : PageId → Option (TreePage K V)} {live : List (PageId × GuardKind)} {p : PageId}

/-! ## The descent -/

omit [Inhabited K] in
theorem Tracked.findLeaf {kind : GuardKind} {nextChild : InternalPage K → PageId}
    (hkind : kind ≠ .basic)
    (hnext : ∀ {n} {page : InternalPage K}, page.Lists n → 0 < n → IsPage n (nextChild page)) :
    ∀ (fuel : Nat) {s : BPlusTree K V} {p : PageId}, Tracked next s pages [(p, kind)] →
      Follows (fun a b => a.1 = b.1 ∧ Mirrors next [(a.1, kind)] a.2 b.2)
        (s.findLeaf kind nextChild fuel p) ({ s with pages }.findLeaf kind nextChild fuel p)
  | 0, _, _, _ => .none
  | fuel + 1, s, p, h => by
    unfold BPlusTree.findLeaf
    cases hpage : s.pages p with
    | none => exact .none
    | some page =>
      have hpage' : pages p = .some page := h.more p page hpage
      have hrefer := h.refer p page hpage
      cases page with
      | leaf page =>
        simp only [hpage']
        exact .some ⟨rfl, h.mirrors⟩
      | internal page =>
        simp only [hpage']
        have hfetched := h.fetchPage (hnext hrefer.2 h.pos) hkind (.of_length (by simp))
        exact hfetched.dropSecond.findLeaf hkind hnext fuel

omit [Inhabited K] in
/-- The descent from the root. -/
theorem Tracked.descend {kind : GuardKind} {nextChild : InternalPage K → PageId}
    (h : Tracked next s pages []) (hroot : IsPage s.nextPageId s.rootPageId)
    (hkind : kind ≠ .basic)
    (hnext : ∀ {n} {page : InternalPage K}, page.Lists n → 0 < n → IsPage n (nextChild page))
    (fuel : Nat) :
    Follows (fun a b => a.1 = b.1 ∧ Mirrors next [(a.1, kind)] a.2 b.2)
      ((s.fetchPage s.rootPageId kind).findLeaf kind nextChild fuel s.rootPageId)
      (({ s with pages }.fetchPage s.rootPageId kind).findLeaf kind nextChild fuel s.rootPageId) :=
  (h.fetchPage hroot hkind (.of_length (by simp))).findLeaf hkind hnext fuel

omit [Inhabited K] in
theorem not_isEmpty_of_isPage (hroot : IsPage s.nextPageId s.rootPageId) : ¬ s.isEmpty = true := by
  unfold isEmpty
  rw [decide_eq_true_eq]
  intro heq
  have hneg := hroot.1
  rw [heq] at hneg
  exact absurd hneg (by decide)

/-! ## `Insert` -/

/-- A new root above two pages that exist. -/
theorem Tracked.growRoot (h : Tracked next s pages live) {left right : PageId}
    (hleft : IsPage s.nextPageId left) (hright : IsPage s.nextPageId right)
    (hlen : live.length ≤ 3) (key : K) :
    Tracked next (s.growRoot left key right).2 ({ s with pages }.growRoot left key right).2.pages
      ((s.nextPageId, .basic) :: live) := by
  have hle : s.nextPageId ≤ s.nextPageId + 1 := Int.le_of_lt (Int.lt_succ _)
  have hlists : ((InternalPage.init s.internalMaxSize).populateNewRoot left key right).Lists
      (s.nextPageId + 1) := by
    intro e he
    rcases List.mem_cons.mp he with rfl | he
    · exact hleft.mono hle
    · rw [List.mem_singleton.mp he]
      exact hright.mono hle
  exact (h.newPageGuarded (.internal _) ⟨.inl rfl, hlists⟩ hlen).setRoot s.nextPageId

/-- `InsertIntoParent` up to the loop over the children of the new page. -/
def splitParent (s : BPlusTree K V) (parentPageId : PageId) (parent : InternalPage K) :
    BPlusTree K V :=
  let (newParentId, s) := s.newPageGuarded (.internal (InternalPage.init s.internalMaxSize))
  let (parent, newParent) := parent.moveHalfTo (InternalPage.init s.internalMaxSize)
  let s := s.write parentPageId (.internal parent)
  let s := s.write newParentId (.internal newParent)
  s.setParents newParentId newParent.array

/-- `InsertIntoParent` after the loop. -/
def raiseParent (fuel : Nat) (s : BPlusTree K V) (parentPageId : PageId) (parent : InternalPage K)
    (middleKey : K) (newParentId : PageId) (newParent : InternalPage K) :
    Option (BPlusTree K V) :=
  if parent.parentPageId = invalidPageId then
    let (newRootId, s) := s.growRoot parentPageId middleKey newParentId
    let s := s.write parentPageId (.internal { parent with parentPageId := newRootId })
    let s := s.write newParentId (.internal { newParent with parentPageId := newRootId })
    some (((s.drop newRootId .basic).drop newParentId .basic).drop parentPageId .write)
  else
    let s := s.write newParentId (.internal { newParent with parentPageId := parent.parentPageId })
    let s := (s.drop parentPageId .write).drop newParentId .basic
    s.insertIntoParent fuel parent.parentPageId parentPageId middleKey newParentId

theorem insertIntoParent_succ (s : BPlusTree K V) (fuel : Nat) (parentPageId oldPageId : PageId)
    (key : K) (newPageId : PageId) :
    s.insertIntoParent (fuel + 1) parentPageId oldPageId key newPageId =
      ((s.fetchPage parentPageId .write).internalAt parentPageId).bind fun parent =>
        let parent := parent.insertNodeAfter oldPageId key newPageId
        if parent.maxSize < parent.array.length then
          let halves := parent.moveHalfTo (InternalPage.init s.internalMaxSize)
          ((s.fetchPage parentPageId .write).splitParent parentPageId parent).raiseParent fuel
            parentPageId halves.1 (parent.keyAt (parent.array.length / 2)) s.nextPageId halves.2
        else
          some (((s.fetchPage parentPageId .write).write parentPageId (.internal parent)).drop
            parentPageId .write) := rfl

theorem splitParent_nextPageId (s : BPlusTree K V) (parentPageId : PageId)
    (parent : InternalPage K) :
    (s.splitParent parentPageId parent).nextPageId = s.nextPageId + 1 :=
  Tracked.setParents_nextPageId ..

theorem Tracked.splitParent {parentPageId : PageId} {parent : InternalPage K}
    (h : Tracked next s pages [(parentPageId, .write)]) (hpage : IsPage s.nextPageId parentPageId)
    (hup : IsParent s.nextPageId parent.parentPageId) (hlists : parent.Lists s.nextPageId) :
    Mirrors next [(s.nextPageId, .basic), (parentPageId, .write)]
      (s.splitParent parentPageId parent) ({ s with pages }.splitParent parentPageId parent) := by
  have hle : s.nextPageId ≤ s.nextPageId + 1 := Int.le_of_lt (Int.lt_succ _)
  have hself : IsPage (s.nextPageId + 1) s.nextPageId := ⟨Int.le_of_lt h.pos, Int.lt_succ _⟩
  obtain ⟨hhalf, hhalf'⟩ := hlists.moveHalfTo (InternalPage.init s.internalMaxSize)
  have hnew := h.newPageGuarded (.internal (InternalPage.init s.internalMaxSize))
    ⟨.inl rfl, fun e he => absurd he List.not_mem_nil⟩ (by simp)
  have hwritten := hnew.write (hpage.mono hle)
    (.internal (parent.moveHalfTo (InternalPage.init s.internalMaxSize)).1)
    ⟨hup.mono hle, hhalf.mono hle⟩
  have hwritten' := hwritten.write hself
    (.internal (parent.moveHalfTo (InternalPage.init s.internalMaxSize)).2)
    ⟨.inl rfl, hhalf'.mono hle⟩
  exact hwritten'.setParents (by simp) _ (.inr hself) (hhalf'.mono hle)

omit [Inhabited K] in
theorem Mirrors.dropFirst {s s' : BPlusTree K V} {kind : GuardKind}
    (h : Mirrors next ((p, kind) :: live) s s') :
    Mirrors next live (s.drop p kind) (s'.drop p kind) := by
  obtain ⟨pages, rfl, h⟩ := h
  exact h.dropFirst.mirrors

omit [Inhabited K] in
/-- A run that goes on from such a state. -/
theorem Mirrors.run {α : Type} {R : α → α → Prop} {f : BPlusTree K V → Option α}
    {s' : BPlusTree K V} (h : Mirrors next live s s')
    (hf : ∀ pages, Tracked next s pages live → Follows R (f s) (f { s with pages })) :
    Follows R (f s) (f s') := by
  obtain ⟨pages, rfl, h⟩ := h
  exact hf pages h

/-- The new neighbour is on its way up, or both pages get a new root. `hnext` is the call for
the parent of the page. -/
theorem Tracked.raiseParent {fuel : Nat} {parentPageId newParentId : PageId}
    {parent newParent : InternalPage K} {middleKey : K}
    (h : Tracked next s pages [(newParentId, .basic), (parentPageId, .write)])
    (hpage : IsPage s.nextPageId parentPageId) (hnew : IsPage s.nextPageId newParentId)
    (hup : IsParent s.nextPageId parent.parentPageId) (hlists : parent.Lists s.nextPageId)
    (hlists' : newParent.Lists s.nextPageId)
    (hnext : ∀ {s : BPlusTree K V} {pages : PageId → Option (TreePage K V)},
      Tracked next s pages [] → IsPage s.nextPageId parent.parentPageId →
      IsPage s.nextPageId newParentId → Follows (Mirrors next [])
        (s.insertIntoParent fuel parent.parentPageId parentPageId middleKey newParentId)
        ({ s with pages }.insertIntoParent fuel parent.parentPageId parentPageId middleKey
          newParentId)) :
    Follows (Mirrors next [])
      (s.raiseParent fuel parentPageId parent middleKey newParentId newParent)
      ({ s with pages }.raiseParent fuel parentPageId parent middleKey newParentId newParent) := by
  unfold BPlusTree.raiseParent
  refine .ite (fun _ => ?_) fun hroot => ?_
  · have hle : s.nextPageId ≤ s.nextPageId + 1 := Int.le_of_lt (Int.lt_succ _)
    have hnewRoot : IsPage (s.nextPageId + 1) s.nextPageId := ⟨Int.le_of_lt h.pos, Int.lt_succ _⟩
    have hgrown := h.growRoot hpage hnew (by simp) middleKey
    have hleft := hgrown.write (hpage.mono hle)
      (.internal { parent with parentPageId := s.nextPageId }) ⟨.inr hnewRoot, hlists.mono hle⟩
    have hright := hleft.write (hnew.mono hle)
      (.internal { newParent with parentPageId := s.nextPageId })
      ⟨.inr hnewRoot, hlists'.mono hle⟩
    exact .some hright.dropFirst.dropFirst.dropFirst.mirrors
  · have hup' := hup.resolve_left hroot
    have hright := h.write hnew
      (.internal { newParent with parentPageId := parent.parentPageId }) ⟨hup, hlists'⟩
    exact hnext hright.dropSecond.dropFirst hup' hnew

/-- **`InsertIntoParent`** has guards on a page, its new neighbour, and a child or the new root. -/
theorem Tracked.insertIntoParent : ∀ (fuel : Nat) {s : BPlusTree K V}
    {pages : PageId → Option (TreePage K V)} {parentPageId oldPageId newPageId : PageId} {key : K},
    Tracked next s pages [] → IsPage s.nextPageId parentPageId → IsPage s.nextPageId newPageId →
    Follows (Mirrors next []) (s.insertIntoParent fuel parentPageId oldPageId key newPageId)
      ({ s with pages }.insertIntoParent fuel parentPageId oldPageId key newPageId)
  | 0, _, _, _, _, _, _, _, _, _ => .none
  | fuel + 1, s, pages, parentPageId, oldPageId, newPageId, key, h, hparent, hnew => by
    have hfetched : Tracked next (s.fetchPage parentPageId .write) pages [(parentPageId, .write)] :=
      h.fetchPage hparent (by decide) (.of_length (by simp))
    rw [insertIntoParent_succ, insertIntoParent_succ]
    refine hfetched.readInternal fun page _ hup hlists => ?_
    have hlists' := hlists.insertNodeAfter hnew oldPageId key
    have hup' := page.insertNodeAfter_parentPageId oldPageId key newPageId ▸ hup
    refine .ite (fun _ => ?_) fun _ => ?_
    · -- the page is split
      generalize page.insertNodeAfter oldPageId key newPageId = parent at hlists' hup' ⊢
      obtain ⟨hhalf, hhalf'⟩ := hlists'.moveHalfTo (InternalPage.init s.internalMaxSize)
      refine (hfetched.splitParent hparent hup' hlists').run
        (f := fun s' => s'.raiseParent fuel parentPageId _ _ s.nextPageId _) fun pages' hsplit => ?_
      have hsucc : ((s.fetchPage parentPageId .write).splitParent parentPageId parent).nextPageId =
        s.nextPageId + 1 := splitParent_nextPageId ..
      generalize (s.fetchPage parentPageId .write).splitParent parentPageId parent = s₁
        at hsplit hsucc ⊢
      have hle : s.nextPageId ≤ s₁.nextPageId := hsucc ▸ Int.le_of_lt (Int.lt_succ _)
      have hself : IsPage s₁.nextPageId s.nextPageId :=
        ⟨Int.le_of_lt h.pos, hsucc ▸ Int.lt_succ _⟩
      exact hsplit.raiseParent (hparent.mono hle) hself (hup'.mono hle) (hhalf.mono hle)
        (hhalf'.mono hle) (insertIntoParent fuel)
    · exact .some (hfetched.write hparent (.internal _) ⟨hup', hlists'⟩).dropFirst.mirrors

variable [LinearOrder K] [Inhabited V]

/-- The results are the same, and so are the states but for the pages outside the part. -/
def SameResult {β : Type} (next : PageId) (live : List (PageId × GuardKind))
    (a b : β × BPlusTree K V) : Prop :=
  a.1 = b.1 ∧ Mirrors next live a.2 b.2

/-- `Insert` after the leaf was split into `leaf` and `newLeaf`. -/
def raiseLeaf (fuel : Nat) (s : BPlusTree K V) (leafPageId : PageId) (leaf : LeafPage K V)
    (newPageId : PageId) (newLeaf : LeafPage K V) : Option (Bool × BPlusTree K V) :=
  if leaf.parentPageId = invalidPageId then
    let (newRootId, s) := s.growRoot leafPageId (newLeaf.keyAt 0) newPageId
    let s := s.write leafPageId (.leaf { leaf with parentPageId := newRootId })
    let s := s.write newPageId (.leaf { newLeaf with parentPageId := newRootId })
    some (true, ((s.drop newRootId .basic).drop newPageId .basic).drop leafPageId .write)
  else
    let s := s.write leafPageId (.leaf leaf)
    let s := s.write newPageId (.leaf { newLeaf with parentPageId := leaf.parentPageId })
    let s := (s.drop leafPageId .write).drop newPageId .basic
    (s.insertIntoParent fuel leaf.parentPageId leafPageId (newLeaf.keyAt 0) newPageId).bind
      fun s => some (true, s)

theorem insertIntoLeaf_eq (s : BPlusTree K V) (fuel : Nat) (leafPageId : PageId) (key : K)
    (value : V) :
    s.insertIntoLeaf fuel leafPageId key value = (s.leafAt leafPageId).bind fun oldLeaf =>
      let leaf := oldLeaf.insert key value
      if leaf.array.length = oldLeaf.array.length then some (false, s.drop leafPageId .write)
      else if leaf.maxSize < leaf.array.length then
        let halves := leaf.moveHalfTo (LeafPage.init s.leafMaxSize)
        (s.newPageGuarded (.leaf (LeafPage.init s.leafMaxSize))).2.raiseLeaf fuel leafPageId
          { halves.1 with nextPageId := s.nextPageId } s.nextPageId
          { halves.2 with nextPageId := leaf.nextPageId }
      else some (true, (s.write leafPageId (.leaf leaf)).drop leafPageId .write) := rfl

omit [LinearOrder K] in
theorem Tracked.raiseLeaf {leafPageId newPageId : PageId} {leaf : LeafPage K V} (fuel : Nat)
    (newLeaf : LeafPage K V)
    (h : Tracked next s pages [(newPageId, .basic), (leafPageId, .write)])
    (hpage : IsPage s.nextPageId leafPageId) (hnew : IsPage s.nextPageId newPageId)
    (hup : IsParent s.nextPageId leaf.parentPageId) :
    Follows (SameResult next []) (s.raiseLeaf fuel leafPageId leaf newPageId newLeaf)
      ({ s with pages }.raiseLeaf fuel leafPageId leaf newPageId newLeaf) := by
  unfold BPlusTree.raiseLeaf
  refine .ite (fun _ => ?_) fun hroot => ?_
  · have hle : s.nextPageId ≤ s.nextPageId + 1 := Int.le_of_lt (Int.lt_succ _)
    have hnewRoot : IsPage (s.nextPageId + 1) s.nextPageId := ⟨Int.le_of_lt h.pos, Int.lt_succ _⟩
    have hgrown := h.growRoot hpage hnew (by simp) (newLeaf.keyAt 0)
    have hleft := hgrown.write (hpage.mono hle) (.leaf { leaf with parentPageId := s.nextPageId })
      (.inr hnewRoot)
    have hright := hleft.write (hnew.mono hle)
      (.leaf { newLeaf with parentPageId := s.nextPageId }) (.inr hnewRoot)
    exact .some ⟨rfl, hright.dropFirst.dropFirst.dropFirst.mirrors⟩
  · have hup' := hup.resolve_left hroot
    have hleft := h.write hpage (.leaf leaf) hup
    have hright := hleft.write hnew (.leaf { newLeaf with parentPageId := leaf.parentPageId }) hup
    refine (hright.dropSecond.dropFirst.insertIntoParent fuel hup' hnew).bind ?_
    exact fun a b hab => .some ⟨rfl, hab⟩

/-- **`Insert` from the leaf on** has guards on the leaf, its new neighbour and the new root. -/
theorem Tracked.insertIntoLeaf {leafPageId : PageId} (fuel : Nat) (key : K) (value : V)
    (h : Tracked next s pages [(leafPageId, .write)]) :
    Follows (SameResult next []) (s.insertIntoLeaf fuel leafPageId key value)
      ({ s with pages }.insertIntoLeaf fuel leafPageId key value) := by
  rw [insertIntoLeaf_eq, insertIntoLeaf_eq]
  refine h.readLeaf fun page hpage hup => ?_
  have hup' := page.insert_parentPageId key value ▸ hup
  generalize page.insert key value = leaf at hup' ⊢
  refine .ite (fun _ => .some ⟨rfl, h.dropFirst.mirrors⟩) fun _ => .ite (fun _ => ?_) fun _ => ?_
  · have hle : s.nextPageId ≤ s.nextPageId + 1 := Int.le_of_lt (Int.lt_succ _)
    have hnew := h.newPageGuarded (.leaf (LeafPage.init s.leafMaxSize)) (.inl rfl) (by simp)
    exact hnew.raiseLeaf fuel _ (hpage.mono hle) ⟨Int.le_of_lt h.pos, Int.lt_succ _⟩
      (hup'.mono hle)
  · exact .some ⟨rfl, (h.write hpage (.leaf leaf) hup').dropFirst.mirrors⟩

theorem Tracked.insert (h : Tracked next s pages []) (hroot : IsPage s.nextPageId s.rootPageId)
    (fuel : Nat) (key : K) (value : V) :
    Follows (SameResult next []) (s.insert fuel key value)
      ({ s with pages }.insert fuel key value) := by
  unfold BPlusTree.insert
  refine .ite (fun hempty => absurd hempty (not_isEmpty_of_isPage hroot)) fun _ => ?_
  refine (h.descend hroot (by decide) (fun hlists hpos => hlists.valueAt hpos _) fuel).bind ?_
  rintro ⟨leafPageId, s₁⟩ ⟨_, _⟩ ⟨rfl, pages₁, rfl, h₁⟩
  exact h₁.insertIntoLeaf fuel key value

/-! ## Reads -/

theorem Tracked.getValue (h : Tracked next s pages []) (hroot : IsPage s.nextPageId s.rootPageId)
    (fuel : Nat) (key : K) :
    Follows (SameResult next []) (s.getValue fuel key) ({ s with pages }.getValue fuel key) := by
  unfold BPlusTree.getValue
  refine .ite (fun hempty => absurd hempty (not_isEmpty_of_isPage hroot)) fun _ => ?_
  refine (h.descend hroot (by decide) (fun hlists hpos => hlists.valueAt hpos _) fuel).bind ?_
  rintro ⟨leafPageId, s₁⟩ ⟨_, _⟩ ⟨rfl, pages₁, rfl, h₁⟩
  exact h₁.readLeaf fun leaf _ _ => .some ⟨rfl, h₁.dropFirst.mirrors⟩

omit [LinearOrder K] [Inhabited V] in
theorem Tracked.begin (h : Tracked next s pages []) (hroot : IsPage s.nextPageId s.rootPageId)
    (fuel : Nat) :
    Follows (SameResult next []) (s.begin fuel) ({ s with pages }.begin fuel) := by
  unfold BPlusTree.begin
  refine .ite (fun hempty => absurd hempty (not_isEmpty_of_isPage hroot)) fun _ => ?_
  refine (h.descend hroot (by decide) (fun hlists hpos => hlists.valueAt hpos _) fuel).bind ?_
  rintro ⟨leafPageId, s₁⟩ ⟨_, _⟩ ⟨rfl, pages₁, rfl, h₁⟩
  exact .some ⟨rfl, h₁.dropFirst.mirrors⟩

theorem Tracked.beginAt (h : Tracked next s pages []) (hroot : IsPage s.nextPageId s.rootPageId)
    (fuel : Nat) (key : K) :
    Follows (SameResult next []) (s.beginAt fuel key) ({ s with pages }.beginAt fuel key) := by
  unfold BPlusTree.beginAt
  refine .ite (fun hempty => absurd hempty (not_isEmpty_of_isPage hroot)) fun _ => ?_
  refine (h.descend hroot (by decide) (fun hlists hpos => hlists.valueAt hpos _) fuel).bind ?_
  rintro ⟨leafPageId, s₁⟩ ⟨_, _⟩ ⟨rfl, pages₁, rfl, h₁⟩
  refine h₁.readLeaf fun leaf _ _ => .ite (fun _ => ?_) fun _ => ?_
  · exact .some ⟨rfl, h₁.dropFirst.mirrors⟩
  · exact .some ⟨rfl, h₁.dropFirst.mirrors⟩

/-! ## `Remove` -/

omit [LinearOrder K] [Inhabited V] in
/-- **`AdjustRoot`** has guards on the root and its only child. -/
theorem Tracked.adjustRoot (h : Tracked next s pages [(p, .write)]) :
    Follows (SameResult next [(p, .write)]) (s.adjustRoot p) ({ s with pages }.adjustRoot p) := by
  unfold BPlusTree.adjustRoot
  cases hpage : s.pages p with
  | none => exact .none
  | some page =>
    have hpage' : pages p = .some page := h.more p page hpage
    have hrefer := h.refer p page hpage
    simp only [hpage']
    cases page with
    | leaf page =>
      refine .ite (fun _ => ?_) fun _ => .some ⟨rfl, h.mirrors⟩
      exact .some ⟨rfl, (h.setRoot invalidPageId).mirrors⟩
    | internal page =>
      refine .ite (fun _ => ?_) fun _ => .some ⟨rfl, h.mirrors⟩
      have hwritten := (h.write (h.exist p _ hpage) (.internal { page with array := [] })
        ⟨hrefer.1, fun e he => absurd he List.not_mem_nil⟩).setRoot (page.valueAt 0)
      have hset := hwritten.setParent (.inl rfl) (hrefer.2.valueAt h.pos 0) (.of_length (by simp))
      exact .some ⟨rfl, hset.mirrors⟩

omit [LinearOrder K] [Inhabited K] [Inhabited V] in
/-- The loop over the children has a guard on one of them. -/
theorem Tracked.coalescePages {neighbor node : PageId} (h : Tracked next s pages live)
    (hlen : live.length ≤ 3) (middleKey : K) :
    Follows (fun a b => a.nextPageId = s.nextPageId ∧ Mirrors next live a b)
      (s.coalescePages neighbor node middleKey)
      ({ s with pages }.coalescePages neighbor node middleKey) := by
  unfold BPlusTree.coalescePages
  cases hpage : s.pages node with
  | none => exact .none
  | some page =>
    have hpage' : pages node = .some page := h.more node page hpage
    have hrefer := h.refer node page hpage
    have hnode := h.exist node page hpage
    simp only [hpage']
    cases page with
    | leaf page =>
      refine h.readLeaf fun other hneighbor hup => ?_
      have hwritten := (h.write hnode (.leaf { page with array := [] }) hrefer).write hneighbor
        (.leaf { other with nextPageId := page.nextPageId, array := other.array ++ page.array }) hup
      exact .some ⟨rfl, hwritten.mirrors⟩
    | internal page =>
      refine h.readInternal fun other hneighbor hup hlists => ?_
      have hmoved := hrefer.2.moveAllTo hlists middleKey
      have hwritten := (h.write hnode (.internal (page.moveAllTo other middleKey).1)
        ⟨hrefer.1, hmoved.1⟩).write hneighbor (.internal (page.moveAllTo other middleKey).2)
        ⟨hup, hmoved.2⟩
      exact .some ⟨setParents_nextPageId .., hwritten.setParents hlen _ hup hmoved.2⟩

omit [LinearOrder K] [Inhabited V] in
theorem Tracked.coalesce {neighbor node parentPageId : PageId} (h : Tracked next s pages live)
    (hlen : live.length ≤ 3) (index : Nat) :
    Follows (SameResult next live) (s.coalesce neighbor node parentPageId index)
      ({ s with pages }.coalesce neighbor node parentPageId index) := by
  unfold BPlusTree.coalesce
  refine h.readInternal fun parent hparent hup hlists => ?_
  refine (h.coalescePages hlen (parent.keyAt (index + 1))).bind ?_
  rintro s₁ _ ⟨hsame, pages₁, rfl, h₁⟩
  rw [← hsame] at hparent hup hlists
  have hwritten := h₁.write hparent (.internal (parent.remove (index + 1)))
    ⟨hup, hlists.remove (index + 1)⟩
  exact .some ⟨rfl, hwritten.mirrors⟩

omit [LinearOrder K] in
theorem Tracked.redistributeLeaf {neighbor node parentPageId : PageId}
    (h : Tracked next s pages live) (index : Nat) (isPredecessor : Bool) :
    Follows (Mirrors next live) (s.redistributeLeaf neighbor node parentPageId index isPredecessor)
      ({ s with pages }.redistributeLeaf neighbor node parentPageId index isPredecessor) := by
  unfold BPlusTree.redistributeLeaf
  refine h.readInternal fun parent hparent hup hlists => ?_
  refine h.readLeaf fun page hnode hpage => h.readLeaf fun other hneighbor hother => ?_
  refine .ite (fun _ => ?_) fun _ => ?_
  · have hwritten := (h.write hnode (.leaf (other.moveLastToFrontOf page).2) hpage).write hneighbor
      (.leaf (other.moveLastToFrontOf page).1) hother
    exact .some (hwritten.write hparent (.internal (parent.setKeyAt index _))
      ⟨hup, hlists.setKeyAt index _⟩).mirrors
  · have hwritten := (h.write hnode (.leaf (other.moveFirstToEndOf page).2) hpage).write hneighbor
      (.leaf (other.moveFirstToEndOf page).1) hother
    exact .some (hwritten.write hparent (.internal (parent.setKeyAt (index + 1) _))
      ⟨hup, hlists.setKeyAt (index + 1) _⟩).mirrors

omit [LinearOrder K] [Inhabited V] in
theorem Tracked.redistributeInternal {neighbor node parentPageId : PageId}
    (h : Tracked next s pages live) (hon : ∀ child, OnPages 4 ((child, .write) :: live))
    (index : Nat) (isPredecessor : Bool) :
    Follows (Mirrors next live)
      (s.redistributeInternal neighbor node parentPageId index isPredecessor)
      ({ s with pages }.redistributeInternal neighbor node parentPageId index isPredecessor) := by
  unfold BPlusTree.redistributeInternal
  refine h.readInternal fun parent hparent hup hlists => ?_
  refine h.readInternal fun page hnode hpage hpages =>
    h.readInternal fun other hneighbor hother hothers => ?_
  refine .ite (fun _ => ?_) fun _ => ?_
  · have hmoved := hothers.moveLastToFrontOf hpages h.pos (parent.keyAt index)
    have hnode' := h.write hnode
      (.internal (other.moveLastToFrontOf page (parent.keyAt index)).2) ⟨hpage, hmoved.2⟩
    have hneighbor' := hnode'.write hneighbor
      (.internal (other.moveLastToFrontOf page (parent.keyAt index)).1) ⟨hother, hmoved.1⟩
    have hparent' := hneighbor'.write hparent (.internal (parent.setKeyAt index
      ((other.moveLastToFrontOf page (parent.keyAt index)).2.keyAt 1)))
      ⟨hup, hlists.setKeyAt index _⟩
    exact .some (hparent'.setParent hpage (hmoved.2.valueAt h.pos 0) (hon _)).mirrors
  · have hmoved := hothers.moveFirstToEndOf hpages h.pos (parent.keyAt (index + 1))
    have hnode' := h.write hnode
      (.internal (other.moveFirstToEndOf page (parent.keyAt (index + 1))).2) ⟨hpage, hmoved.2⟩
    have hneighbor' := hnode'.write hneighbor
      (.internal (other.moveFirstToEndOf page (parent.keyAt (index + 1))).1) ⟨hother, hmoved.1⟩
    have hparent' := hneighbor'.write hparent (.internal (parent.setKeyAt (index + 1)
      ((other.moveFirstToEndOf page (parent.keyAt (index + 1))).1.keyAt 1)))
      ⟨hup, hlists.setKeyAt (index + 1) _⟩
    exact .some (hparent'.setParent hpage (hmoved.2.valueAt h.pos _) (hon _)).mirrors

omit [LinearOrder K] in
/-- **`Redistribute`** fetches the parent, which has a guard already, and a child. -/
theorem Tracked.redistribute {neighbor node parentPageId : PageId}
    (h : Tracked next s pages [(neighbor, .write), (parentPageId, .write), (node, .write)])
    (hnode : ∀ page, s.pages node = .some page → page.getParentPageId = parentPageId)
    (hparent : IsPage s.nextPageId parentPageId) (index : Nat) (isPredecessor : Bool) :
    Follows (Mirrors next [(neighbor, .write), (parentPageId, .write), (node, .write)])
      (s.redistribute neighbor node index isPredecessor)
      ({ s with pages }.redistribute neighbor node index isPredecessor) := by
  unfold BPlusTree.redistribute
  refine h.read fun page hpage _ _ => ?_
  obtain rfl := hnode page hpage
  have hfetched : Tracked next (s.fetchPage page.getParentPageId .write) pages
      ((page.getParentPageId, .write) ::
        [(neighbor, .write), (page.getParentPageId, .write), (node, .write)]) :=
    h.fetchPage hparent (by decide) (.of_length (by simp))
  -- five guards, but on four pages
  have hon : ∀ child, OnPages 4 ((child, .write) :: (page.getParentPageId, .write) ::
      [(neighbor, .write), (page.getParentPageId, .write), (node, .write)]) := fun child =>
    ⟨by simp, [child, page.getParentPageId, neighbor, node], by simp, by simp⟩
  refine .ite (fun _ => ?_) fun _ => ?_
  · exact (hfetched.redistributeLeaf index isPredecessor).bind fun a b hab => .some hab.dropFirst
  · exact (hfetched.redistributeInternal hon index isPredecessor).bind
      fun a b hab => .some hab.dropFirst

omit [LinearOrder K] in
/-- **`CoalesceOrRedistribute`** has guards on a page, its parent and its sibling, and goes on
with the guard of the parent alone. -/
theorem Tracked.coalesceOrRedistribute : ∀ (fuel : Nat) {s : BPlusTree K V}
    {pages : PageId → Option (TreePage K V)} {node : PageId},
    Tracked next s pages [(node, .write)] →
    Follows (SameResult next []) (s.coalesceOrRedistribute fuel node)
      ({ s with pages }.coalesceOrRedistribute fuel node)
  | 0, _, _, _, _ => .none
  | fuel + 1, s, pages, node, h => by
    unfold BPlusTree.coalesceOrRedistribute
    refine h.read fun page hpage _ hrefer => ?_
    refine .ite (fun _ => ?_) fun hroot => .ite (fun _ => ?_) fun _ => ?_
    · exact h.adjustRoot.bind fun a b hab => .some ⟨hab.1, hab.2.dropFirst⟩
    · exact .some ⟨rfl, h.dropFirst.mirrors⟩
    · have hup : IsPage s.nextPageId page.getParentPageId :=
        hrefer.parent.resolve_left fun heq => hroot (decide_eq_true heq)
      have hfetched : Tracked next (s.fetchPage page.getParentPageId .write) pages
          [(page.getParentPageId, .write), (node, .write)] :=
        h.fetchPage hup (by decide) (.of_length (by simp))
      refine hfetched.readInternal fun parent hparent _ hlists => ?_
      dsimp only
      cases parent.valueIndex node with
      | none => exact .some ⟨rfl, hfetched.dropFirst.dropFirst.mirrors⟩
      | some nodeIndex =>
        dsimp only
        have hsibling := hlists.valueAt h.pos
          (if decide (0 < nodeIndex) = true then nodeIndex - 1 else nodeIndex + 1)
        generalize parent.valueAt _ = sibling at hsibling ⊢
        have hpaired : Tracked next (s.paired page.getParentPageId sibling) pages
            [(sibling, .write), (page.getParentPageId, .write), (node, .write)] :=
          hfetched.fetchPage hsibling (by decide) (.of_length (by simp))
        have hmerged : ∀ a b : Bool × BPlusTree K V, SameResult next
            [(sibling, .write), (page.getParentPageId, .write), (node, .write)] a b →
            Follows (SameResult next []) (afterCoalesce fuel node sibling page.getParentPageId a)
              (afterCoalesce fuel node sibling page.getParentPageId b) := by
          rintro ⟨parentShouldDelete, s₁⟩ ⟨_, _⟩ ⟨rfl, pages₁, rfl, h₁⟩
          refine .ite (fun _ => ?_) fun _ => .some ⟨rfl, h₁.dropThird.dropFirst.dropFirst.mirrors⟩
          exact h₁.dropThird.dropFirst.coalesceOrRedistribute fuel
        refine hpaired.read fun siblingPage _ _ _ => .ite (fun _ => .ite ?_ ?_) fun _ => ?_
        · exact fun _ => (hpaired.coalesce (by simp) _).bind hmerged
        · exact fun _ => (hpaired.coalesce (by simp) _).bind hmerged
        · have hparentOf : ∀ page', s.pages node = .some page' →
              page'.getParentPageId = page.getParentPageId := by
            intro page' hpage'
            rw [hpage'] at hpage
            rw [Option.some.inj hpage]
          exact (hpaired.redistribute hparentOf hup nodeIndex (decide (0 < nodeIndex))).bind
            fun a b hab => .some ⟨rfl, hab.dropFirst.dropFirst.dropFirst⟩

/-! ### All of `Remove` -/

theorem Tracked.removeFromLeaf {leafPageId : PageId} (fuel : Nat) (key : K)
    (h : Tracked next s pages [(leafPageId, .write)]) :
    Follows (Mirrors next []) (s.removeFromLeaf fuel leafPageId key)
      ({ s with pages }.removeFromLeaf fuel leafPageId key) := by
  unfold BPlusTree.removeFromLeaf
  refine h.readLeaf fun page hpage hup => .ite (fun _ => .some h.dropFirst.mirrors) fun _ => ?_
  have hup' := page.removeAndDeleteRecord_parentPageId key ▸ hup
  have hwritten := h.write hpage (.leaf (page.removeAndDeleteRecord key)) hup'
  refine .ite (fun _ => ?_) fun _ => .some hwritten.dropFirst.mirrors
  exact (hwritten.coalesceOrRedistribute fuel).bind fun a b hab => .some hab.2

theorem Tracked.remove (h : Tracked next s pages []) (hroot : IsPage s.nextPageId s.rootPageId)
    (fuel : Nat) (key : K) :
    Follows (Mirrors next []) (s.remove fuel key) ({ s with pages }.remove fuel key) := by
  unfold BPlusTree.remove
  refine .ite (fun hempty => absurd hempty (not_isEmpty_of_isPage hroot)) fun _ => ?_
  refine (h.descend hroot (by decide) (fun hlists hpos => hlists.valueAt hpos _) fuel).bind ?_
  rintro ⟨leafPageId, s₁⟩ ⟨_, _⟩ ⟨rfl, pages₁, rfl, h₁⟩
  exact h₁.removeFromLeaf fuel key

end Runs

end BPlusTree

end OneBase
