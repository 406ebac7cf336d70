import OneBase.Index.TreeShape

/-!
# Small steps on the pages of the tree

What the guards leave in the log, and what the loops over children and the descent do to
the store.

- `GuardLog.Ok`: the guards that are live, and no latch was requested twice.
- `BPlusTree.setParents_eq`: the loop that sets the parents of children.
- `BPlusTree.findLeaf_node`, `findLeaf_leaf`: the descent.
- `BPlusTree.Sub`: a subtree of a well-formed tree.
-/

namespace OneBase

/-! ## The log -/

/-- The live guards are `ps`, and no guard requested a latch that was held. -/
structure GuardLog.Ok (log : GuardLog) (ps : List (PageId × GuardKind)) : Prop where
  live : log.live = ps
  noRelatch : log.NoRelatch

namespace GuardLog.Ok

variable {log : GuardLog} {ps : List (PageId × GuardKind)} {p : PageId} {kind : GuardKind}

theorem not_latched (hlog : log.Ok ps) (hp : ∀ g ∈ ps, g.1 ≠ p) : ¬ log.Latched p := by
  rintro (hmem | hmem)
  · rw [hlog.live] at hmem
    exact hp _ hmem rfl
  · rw [hlog.live] at hmem
    exact hp _ hmem rfl

/-- A guard for a page that no live guard is on. -/
theorem acquire (hlog : log.Ok ps) (hp : ∀ g ∈ ps, g.1 ≠ p) :
    Ok (.acquire p kind :: log) ((p, kind) :: ps) where
  live := congrArg _ hlog.live
  noRelatch := ⟨.inr (hlog.not_latched hp), hlog.noRelatch⟩

theorem release (hlog : log.Ok ps) (p : PageId) (kind : GuardKind) :
    Ok (.release p kind :: log) (ps.erase (p, kind)) where
  live := congrArg (fun ps => ps.erase (p, kind)) hlog.live
  noRelatch := hlog.noRelatch

/-- The latest guard goes first. -/
theorem release_head (hlog : log.Ok ((p, kind) :: ps)) : Ok (.release p kind :: log) ps := by
  have h := hlog.release p kind
  rwa [List.erase_cons_head] at h

/-- The guard before the latest goes first. -/
theorem release_second {q : PageId} {kind' : GuardKind}
    (hlog : log.Ok ((q, kind') :: (p, kind) :: ps)) (hne : q ≠ p) :
    Ok (.release p kind :: log) ((q, kind') :: ps) := by
  have h := hlog.release p kind
  rwa [List.erase_cons_tail (by simp [hne]), List.erase_cons_head] at h

end GuardLog.Ok

/-! ## Parents -/

namespace TreePage

variable {K V : Type}

theorem setParentPageId_setParentPageId (p : PageId) (page : TreePage K V) :
    (page.setParentPageId p).setParentPageId p = page.setParentPageId p := by
  cases page with
  | leaf page => rfl
  | internal page => rfl

end TreePage

namespace BPlusTree

variable {K V : Type} {h : Nat}

/-- **The loop over the children** changes their parents and no other page. -/
theorem setParents_eq (parent : PageId) (cs : List (K × PageId)) : ∀ s : BPlusTree K V,
    ∃ log, s.setParents parent cs =
        { s with
          pages := fun p =>
            if p ∈ cs.map Prod.snd then (s.pages p).map (TreePage.setParentPageId parent)
            else s.pages p
          log } ∧
      ∀ ps, s.log.Ok ps → (∀ c ∈ cs, ∀ g ∈ ps, g.1 ≠ c.2) → GuardLog.Ok log ps := by
  induction cs with
  | nil => exact fun s => ⟨s.log, by simp [setParents], fun ps hlog _ => hlog⟩
  | cons c cs ih =>
    intro s
    obtain ⟨log, heq, hlog⟩ := ih (s.setParent parent c.2)
    refine ⟨log, ?_, fun ps hps hfree => ?_⟩
    · show (s.setParent parent c.2).setParents parent cs = _
      rw [heq]
      simp only [setParent, drop, fetchPage, mk.injEq, and_true, true_and]
      funext p
      by_cases hp : p = c.2
      · subst hp
        by_cases hmem : c.2 ∈ cs.map Prod.snd
        · simp [hmem, Function.comp_def, TreePage.setParentPageId_setParentPageId]
        · simp [hmem]
      · rw [Function.update_of_ne hp]
        refine if_congr ?_ rfl rfl
        rw [List.map_cons, List.mem_cons]
        exact (or_iff_right hp).symm
    · refine hlog ps ?_ fun c' hc' => hfree c' (List.mem_cons_of_mem _ hc')
      exact (hps.acquire (hfree c List.mem_cons_self)).release_head

/-! ## The descent -/

/-- The descent fetches the child before it gives the page back. -/
def descended (s : BPlusTree K V) (kind : GuardKind) (p child : PageId) : BPlusTree K V :=
  (s.fetchPage child kind).drop p kind

theorem findLeaf_node {kind : GuardKind} {next : InternalPage K → PageId} {s : BPlusTree K V}
    {p : PageId} {page : InternalPage K} (hpage : s.pages p = some (.internal page)) (fuel : Nat) :
    s.findLeaf kind next (fuel + 1) p =
      (s.descended kind p (next page)).findLeaf kind next fuel (next page) := by
  simp only [findLeaf, hpage]
  rfl

theorem findLeaf_leaf {kind : GuardKind} {next : InternalPage K → PageId} {s : BPlusTree K V}
    {p : PageId} {page : LeafPage K V} (hpage : s.pages p = some (.leaf page)) (fuel : Nat) :
    s.findLeaf kind next (fuel + 1) p = some (p, s) := by
  simp only [findLeaf, hpage]

/-! ## Subtrees -/

section Subtrees

open BTree

variable [LinearOrder K]

/-- A subtree of a well-formed tree. -/
structure Sub (s : BPlusTree K V) (t : BTree K V h) : Prop where
  rep : t.Rep s.pages
  nodup : t.ids.Nodup
  alloc : ∀ p ∈ t.ids, 0 ≤ p ∧ p < s.nextPageId
  links : t.Links
  sized : t.Sized s.leafMaxSize s.internalMaxSize
  ordered : t.Ordered

theorem WellFormed.sub {s : BPlusTree K V} {t : BTree K V h} (hwf : s.WellFormed t) : s.Sub t :=
  ⟨hwf.rep, hwf.nodup, hwf.alloc, hwf.links, hwf.sized, hwf.ordered⟩

namespace Sub

variable {s s' : BPlusTree K V} {id p : PageId} {m : Nat} {cs : List (K × BTree K V h)}

theorem child (hsub : s.Sub (node id m p cs)) {c : K × BTree K V h} (hc : c ∈ cs) :
    s.Sub c.2 ∧ c.2.parent = id ∧ c.2.Fits := by
  have hids : ∀ q ∈ c.2.ids, q ∈ (node id m p cs).ids := fun q hq => by
    rw [ids_node]
    exact List.mem_cons_of_mem _ (List.mem_flatMap.mpr ⟨c, hc, hq⟩)
  have hnodup := hsub.nodup
  rw [ids_node, List.nodup_cons] at hnodup
  obtain ⟨hfits, hsized⟩ := hsub.sized.2.2 c hc
  obtain ⟨hparent, hlinks⟩ := hsub.links c hc
  refine ⟨⟨(rep_node.mp hsub.rep).2 c hc, ?_, fun q hq => hsub.alloc q (hids q hq), hlinks, hsized,
    hsub.ordered.2 c hc⟩, hparent, hfits⟩
  exact (List.nodup_flatMap.mp hnodup.2).1 c hc

theorem page (hsub : s.Sub (node id m p cs)) : s.pages id = some (.internal ⟨m, p, slots cs⟩) :=
  (rep_node.mp hsub.rep).1

theorem id_not_mem (hsub : s.Sub (node id m p cs)) : id ∉ cs.flatMap fun c => c.2.ids := by
  have hnodup := hsub.nodup
  rw [ids_node, List.nodup_cons] at hnodup
  exact hnodup.1

theorem id_alloc (hsub : s.Sub (node id m p cs)) : 0 ≤ id ∧ id < s.nextPageId :=
  hsub.alloc id (id_mem_ids (node id m p cs))

theorem children_nodup (hsub : s.Sub (node id m p cs)) : (cs.flatMap fun c => c.2.ids).Nodup := by
  have hnodup := hsub.nodup
  rw [ids_node, List.nodup_cons] at hnodup
  exact hnodup.2

theorem children_alloc (hsub : s.Sub (node id m p cs)) :
    ∀ q ∈ cs.flatMap (fun c => c.2.ids), 0 ≤ q ∧ q < s.nextPageId := fun q hq =>
  hsub.alloc q (by
    rw [ids_node]
    exact List.mem_cons_of_mem _ hq)

/-- The children have distinct ids, none that of the page above them. -/
theorem distinct {l r : List (K × BTree K V h)} {c : K × BTree K V h}
    (hsub : s.Sub (node id m p (l ++ c :: r))) :
    (∀ x ∈ l, x.2.id ≠ c.2.id) ∧ ∀ x ∈ l ++ c :: r, x.2.id ≠ id := by
  constructor
  · intro x hx heq
    have hnodup := hsub.children_nodup
    rw [List.flatMap_append, List.nodup_append] at hnodup
    exact hnodup.2.2 x.2.id (List.mem_flatMap.mpr ⟨x, hx, id_mem_ids _⟩) c.2.id
      (List.mem_flatMap.mpr ⟨c, List.mem_cons_self, id_mem_ids _⟩) heq
  · intro x hx heq
    exact hsub.id_not_mem (List.mem_flatMap.mpr ⟨x, hx, heq ▸ id_mem_ids _⟩)

theorem descend {l r : List (K × BTree K V h)} {c : K × BTree K V h} {kind : GuardKind}
    (hsub : s.Sub (node id m p (l ++ c :: r))) (hlog : s.log.Ok [(id, kind)]) :
    (s.descended kind id c.2.id).log.Ok [(c.2.id, kind)] := by
  have hne : c.2.id ≠ id := hsub.distinct.2 c (List.mem_append_right _ List.mem_cons_self)
  have hacquired : GuardLog.Ok (.acquire c.2.id kind :: s.log) [(c.2.id, kind), (id, kind)] :=
    hlog.acquire fun g hg => by
      rw [List.mem_singleton.mp hg]
      exact hne.symm
  exact hacquired.release_second hne

/-- The step of the descent from a page to the child `c` that the key is routed to. -/
structure Descent (s : BPlusTree K V) (id p : PageId) (m : Nat) (cs : List (K × BTree K V h))
    (kind : GuardKind) (key : K) [Inhabited K] (l : List (K × BTree K V h)) (c : K × BTree K V h)
    (r : List (K × BTree K V h)) : Prop where
  route : Route key cs l c r
  index : (⟨m, p, slots cs⟩ : InternalPage K).lookupIndex key = l.length
  lookup : (⟨m, p, slots cs⟩ : InternalPage K).lookup key = c.2.id
  child : (s.descended kind id c.2.id).Sub c.2
  parent : c.2.parent = id
  parent_ne : c.2.parent ≠ invalidPageId
  fits : c.2.Fits
  mem_keys : key ∈ (node id m p cs).keys ↔ key ∈ c.2.keys
  log : (s.descended kind id c.2.id).log.Ok [(c.2.id, kind)]

theorem exists_descent [Inhabited K] {kind : GuardKind} (hsub : s.Sub (node id m p cs))
    (hlog : s.log.Ok [(id, kind)]) (key : K) :
    ∃ l c r, Descent s id p m cs kind key l c r := by
  obtain ⟨l, c, r, hroute, hindex, hlookup⟩ := exists_route hsub.ordered.1 hsub.sized.2.1 m p key
  have hc : c ∈ cs := by
    rw [hroute.split]
    exact List.mem_append_right _ List.mem_cons_self
  obtain ⟨hchild, hparent, hfits⟩ := hsub.child hc
  have hchild' : (s.descended kind id c.2.id).Sub c.2 :=
    ⟨hchild.rep, hchild.nodup, hchild.alloc, hchild.links, hchild.sized, hchild.ordered⟩
  refine ⟨l, c, r, hroute, hindex, hlookup, hchild', hparent, ?_, hfits,
    hroute.mem_keys hsub.ordered.1, (hroute.split ▸ hsub).descend hlog⟩
  rw [hparent]
  intro heq
  have hneg := hsub.id_alloc.1
  rw [heq] at hneg
  exact absurd hneg (by decide)

end Sub

/-- **The tree between two operations**: it is empty or well-formed, has these entries, and
no guard is live. -/
inductive Holds (s : BPlusTree K V) : List (K × V) → Prop where
  | empty : s.rootPageId = invalidPageId → 0 ≤ s.nextPageId → s.log.Ok [] → Holds s []
  | tree {h : Nat} {t : BTree K V h} : s.WellFormed t → s.log.Ok [] → Holds s t.entries

/-- The root page is not overfull. -/
def RootMax (s : BPlusTree K V) : Prop :=
  ∀ page, s.rootPageId ≠ invalidPageId → s.pages s.rootPageId = some page →
    page.getSize ≤ page.getMaxSize

/-- A root that is a leaf has an entry, another root has two children. -/
def RootMin (s : BPlusTree K V) : Prop :=
  ∀ page, s.rootPageId ≠ invalidPageId → s.pages s.rootPageId = some page →
    (if page.isLeafPage then 1 else 2) ≤ page.getSize

theorem WellFormed.root_ne {s : BPlusTree K V} {t : BTree K V h} (hwf : s.WellFormed t) :
    s.rootPageId ≠ invalidPageId := by
  intro heq
  have hneg := (hwf.alloc t.id (id_mem_ids t)).1
  rw [← hwf.root, heq] at hneg
  exact absurd hneg (by decide)

theorem WellFormed.rootMax_iff {s : BPlusTree K V} {t : BTree K V h} (hwf : s.WellFormed t) :
    s.RootMax ↔ t.page.getSize ≤ t.page.getMaxSize := by
  have hpage : s.pages s.rootPageId = some t.page := by
    rw [hwf.root]
    exact hwf.rep.page
  constructor
  · intro hmax
    exact hmax t.page hwf.root_ne hpage
  · intro hle page _ hpage'
    rw [hpage] at hpage'
    exact Option.some.inj hpage' ▸ hle

omit [LinearOrder K] in
/-- The root is not too small. -/
theorem rootMin_iff {s : BPlusTree K V} {t : BTree K V h} (hroot : s.rootPageId = t.id)
    (hne : t.id ≠ invalidPageId) (hrep : t.Rep s.pages) :
    s.RootMin ↔ t.RootMin := by
  have hpage : s.pages s.rootPageId = some t.page := by
    rw [hroot]
    exact hrep.page
  constructor
  · intro hmin
    exact hmin t.page (hroot ▸ hne) hpage
  · intro hle page _ hpage'
    rw [hpage] at hpage'
    exact Option.some.inj hpage' ▸ hle

/-- The log does not matter. -/
theorem WellFormed.setLog {s : BPlusTree K V} {t : BTree K V h} (hwf : s.WellFormed t)
    (log : GuardLog) : { s with log }.WellFormed t :=
  ⟨hwf.root, hwf.rep, hwf.nodup, hwf.alloc, hwf.parent, hwf.links, hwf.sized, hwf.ordered,
    hwf.chained⟩

theorem WellFormed.not_isEmpty {s : BPlusTree K V} {t : BTree K V h} (hwf : s.WellFormed t) :
    s.isEmpty = false := by
  simp [isEmpty, hwf.root_ne]

/-! ## A store for a tree -/

/-- A store that holds the pages of a tree and no others. -/
def ofTree (t : BTree K V h) (leafMaxSize internalMaxSize : Nat) (nextPageId : PageId) :
    BPlusTree K V where
  leafMaxSize := leafMaxSize
  internalMaxSize := internalMaxSize
  rootPageId := t.id
  pages := fun p => (t.pages.find? fun e => e.1 = p).map Prod.snd
  nextPageId := nextPageId

omit [LinearOrder K] in
theorem rep_ofTree {t : BTree K V h} {lm im : Nat} {next : PageId} (hnodup : t.ids.Nodup) :
    t.Rep (ofTree t lm im next).pages := by
  intro e he
  have hfind : ∀ pages : List (PageId × TreePage K V), (pages.map Prod.fst).Nodup → e ∈ pages →
      pages.find? (fun e' => e'.1 = e.1) = some e := by
    intro pages
    induction pages with
    | nil => exact fun _ he => absurd he List.not_mem_nil
    | cons e' pages ih =>
      intro hnodup he
      rw [List.map_cons, List.nodup_cons] at hnodup
      rcases List.mem_cons.mp he with rfl | he
      · exact List.find?_cons_of_pos (by simp)
      · rw [List.find?_cons_of_neg, ih hnodup.2 he]
        rw [decide_eq_true_eq]
        intro heq
        exact hnodup.1 (heq ▸ List.mem_map_of_mem he)
  show (t.pages.find? fun e' => e'.1 = e.1).map Prod.snd = some e.2
  rw [hfind _ hnodup he]
  rfl

/-- The tree that a store was made of is well-formed in it. -/
theorem wellFormed_ofTree {t : BTree K V h} {lm im : Nat} {next : PageId}
    (hnodup : t.ids.Nodup) (halloc : ∀ p ∈ t.ids, 0 ≤ p ∧ p < next)
    (hparent : t.parent = invalidPageId)
    (hlinks : t.Links) (hsized : t.Sized lm im) (hordered : t.Ordered)
    (hchained : Chained t.chain invalidPageId) : (ofTree t lm im next).WellFormed t :=
  ⟨rfl, rep_ofTree hnodup, hnodup, halloc, hparent, hlinks, hsized, hordered, hchained⟩

end Subtrees

end BPlusTree

end OneBase
