import OneBase.Index.Latches

/-!
# The tree as a finite map

Runs of `Insert`, `Remove` and `GetValue` on a tree that is empty at first, next to the same
calls on a map from keys to values.

- `MapCall.spec`: a call on the map.
- `BPlusTree.IsMap`: the tree stands for the map.
- `call_isMap`, `call_writes_inBounds`: one call.
- `mapRun_refines`: a run.
-/

namespace OneBase

open BTree BPlusTree

/-- The calls that the tree answers as a map does. -/
inductive MapCall (K V : Type) where
  | insert (key : K) (value : V)
  | remove (key : K)
  | getValue (key : K)

/-- What a call returns; `GetValue` appends a value or returns false. -/
inductive MapResult (V : Type) where
  | inserted (done : Bool)
  | removed
  | found (value : Option V)
  deriving DecidableEq

namespace MapCall

variable {K V : Type} [LinearOrder K]

/-- **A call on a map.** -/
def spec (m : K → Option V) : MapCall K V → MapResult V × (K → Option V)
  | insert key value =>
    match m key with
    | some _ => (.inserted false, m)
    | none => (.inserted true, Function.update m key (some value))
  | remove key => (.removed, Function.update m key none)
  | getValue key => (.found (m key), m)

/-- The results of the calls, and the map after them. -/
def specRun (m : K → Option V) : List (MapCall K V) → List (MapResult V) × (K → Option V)
  | [] => ([], m)
  | c :: cs =>
    let (result, m) := c.spec m
    let (results, m) := specRun m cs
    (result :: results, m)

variable [Inhabited K] [Inhabited V]

/-- A call on the tree; the log of the guards starts anew. -/
def call (fuel : Nat) (s : BPlusTree K V) : MapCall K V → Option (MapResult V × BPlusTree K V)
  | insert key value =>
    (BPlusTree.insert fuel { s with log := [] } key value).map fun r => (.inserted r.1, r.2)
  | remove key => (BPlusTree.remove fuel { s with log := [] } key).map fun s => (.removed, s)
  | getValue key =>
    (BPlusTree.getValue fuel { s with log := [] } key).map fun r => (.found r.1, r.2)

def callRun (fuel : Nat) (s : BPlusTree K V) :
    List (MapCall K V) → Option (List (MapResult V) × BPlusTree K V)
  | [] => some ([], s)
  | c :: cs => do
    let (result, s) ← c.call fuel s
    let (results, s) ← callRun fuel s cs
    return (result :: results, s)

/-- The operation of the tree. -/
def op : MapCall K V → TreeOp K V
  | insert key value => .insert key value
  | remove key => .remove key
  | getValue key => .getValue key

/-- The call does not make an internal page underfull, the root apart. -/
def Shallow (s : BPlusTree K V) : MapCall K V → Prop
  | remove key => ∀ (h : Nat) (t : BTree K V h), s.WellFormed t → ¬ Cascades key t
  | _ => True

/-- The pages have no more elements than fit in them, and the call overruns none. -/
def Inside (s : BPlusTree K V) (c : MapCall K V) : Prop :=
  ∀ (h : Nat) (t : BTree K V h), s.WellFormed t → t.InPages ∧ ¬ c.op.Overruns t

/-- Every call of the run meets the condition on the tree that it finds. -/
def RunMeets (condition : BPlusTree K V → MapCall K V → Prop) (fuel : Nat) (s : BPlusTree K V) :
    List (MapCall K V) → Prop
  | [] => True
  | c :: cs => condition s c ∧
      ∀ r s', c.call fuel s = some (r, s') → RunMeets condition fuel s' cs

theorem RunMeets.imp {condition condition' : BPlusTree K V → MapCall K V → Prop} {fuel : Nat}
    (himp : ∀ s c, condition s c → condition' s c) (cs : List (MapCall K V)) :
    ∀ {s : BPlusTree K V}, RunMeets condition fuel s cs → RunMeets condition' fuel s cs := by
  induction cs with
  | nil => exact fun _ => trivial
  | cons c cs ih =>
    exact fun hrun => ⟨himp _ c hrun.1, fun r s' hcall => ih (hrun.2 r s' hcall)⟩

/-- No call of the run makes an internal page underfull, the root apart. -/
def ShallowRun (fuel : Nat) (s : BPlusTree K V) (cs : List (MapCall K V)) : Prop :=
  RunMeets (fun s c => c.Shallow s) fuel s cs

end MapCall

namespace BTree

variable {K V : Type} {h : Nat}

/-- Two children have more entries than one. -/
theorem length_entries_node {id p : PageId} {m : Nat} {cs : List (K × BTree K V h)}
    (hlen : 2 ≤ cs.length) (hchildren : ∀ c ∈ cs, h + 1 ≤ c.2.entries.length) :
    h + 1 + 1 ≤ (node id m p cs).entries.length := by
  match cs, hlen, hchildren with
  | c₁ :: c₂ :: cs, _, hchildren =>
    have h₁ := hchildren c₁ (by simp)
    have h₂ := hchildren c₂ (by simp)
    rw [entries_node, List.flatMap_cons, List.flatMap_cons, List.length_append, List.length_append]
    omega

/-- A page that is not underfull has more entries below it than pages above each of them. -/
theorem height_lt_length {lm im : Nat} (hlm : 2 ≤ lm) (him : 3 ≤ im) :
    ∀ {h : Nat} {t : BTree K V h},
    t.Sized lm im → t.Fits → h + 1 ≤ t.entries.length
  | 0, _, hsized, hfits => List.length_pos_iff.mpr (entries_ne_nil hlm hsized hfits)
  | h + 1, t, hsized, hfits => by
    obtain ⟨id, m, p, cs, rfl⟩ := t.exists_node
    obtain ⟨rfl, -, hchildren⟩ := sized_node.mp hsized
    have hlen := (fits_node.mp hfits).1
    exact length_entries_node (by omega) fun c hc =>
      height_lt_length hlm him (hchildren c hc).2 (hchildren c hc).1

theorem RootMin.height_lt_length {lm im : Nat} (hlm : 2 ≤ lm) (him : 3 ≤ im) {t : BTree K V h}
    (hmin : t.RootMin) (hsized : t.Sized lm im) : h + 1 ≤ t.entries.length := by
  cases h with
  | zero =>
    obtain ⟨id, page, rfl⟩ := t.exists_leaf
    rw [entries_leaf]
    exact rootMin_leaf.mp hmin
  | succ h =>
    obtain ⟨id, m, p, cs, rfl⟩ := t.exists_node
    exact length_entries_node (rootMin_node.mp hmin) fun c hc =>
      BTree.height_lt_length hlm him ((sized_node.mp hsized).2.2 c hc).2
        ((sized_node.mp hsized).2.2 c hc).1

end BTree

namespace BPlusTree

variable {K V : Type} [LinearOrder K] [Inhabited K] [Inhabited V] {h : Nat}

/-- **The tree stands for the map**, and has at most `n` entries. -/
inductive IsMap (s : BPlusTree K V) (n : Nat) (m : K → Option V) : Prop where
  | empty : s.rootPageId = invalidPageId → 0 ≤ s.nextPageId → (∀ key, m key = none) → IsMap s n m
  | tree {h : Nat} {t : BTree K V h} : s.WellFormed t → t.RootMin →
      t.page.getSize ≤ t.page.getMaxSize → t.entries.length ≤ n →
      (∀ key v, m key = some v ↔ (key, v) ∈ t.entries) → IsMap s n m

variable {s s' : BPlusTree K V} {n fuel : Nat} {m : K → Option V} {t : BTree K V h} {key : K}

omit [Inhabited K] [Inhabited V] in
theorem IsMap.isEmpty_iff (hs : s.IsMap n m) (hlm : 2 ≤ s.leafMaxSize)
    (him : 3 ≤ s.internalMaxSize) : s.isEmpty = true ↔ ∀ key, m key = none := by
  cases hs with
  | empty hroot _ hm => exact iff_of_true (decide_eq_true hroot) hm
  | @tree h t hwf hmin hmax _ hm =>
    refine iff_of_false (by simp [hwf.not_isEmpty]) fun hnone => ?_
    have hpos : 0 < t.entries.length :=
      Nat.lt_of_lt_of_le (Nat.succ_pos h) (hmin.height_lt_length hlm him hwf.sized)
    obtain ⟨e, he⟩ := List.exists_mem_of_length_pos hpos
    rw [← hm e.1 e.2, hnone] at he
    cases he

omit [LinearOrder K] [Inhabited K] [Inhabited V] in
/-- A key that the map does not have is not in the tree. -/
theorem not_mem_keys_iff (hm : ∀ key v, m key = some v ↔ (key, v) ∈ t.entries) :
    m key = none ↔ key ∉ t.keys := by
  constructor
  · intro hnone hmem
    obtain ⟨e, he, rfl⟩ := List.mem_map.mp hmem
    rw [← hm e.1 e.2, hnone] at he
    cases he
  · intro hmem
    cases hv : m key with
    | none => rfl
    | some v => exact absurd (List.mem_map_of_mem ((hm key v).mp hv)) hmem

omit [Inhabited K] [Inhabited V] in
/-- The map after a new entry. -/
theorem update_some_iff {entries entries' : List (K × V)} {value : V} (hkey : m key = none)
    (hm : ∀ key v, m key = some v ↔ (key, v) ∈ entries)
    (hperm : entries'.Perm ((key, value) :: entries)) (k : K) (v : V) :
    Function.update m key (some value) k = some v ↔ (k, v) ∈ entries' := by
  rw [hperm.mem_iff, List.mem_cons, Prod.mk.injEq, ← hm]
  by_cases hk : k = key
  · subst hk
    simp [hkey, eq_comm]
  · simp [hk]

omit [Inhabited K] [Inhabited V] in
/-- The map without a key. -/
theorem update_none_iff {entries entries' : List (K × V)}
    (hm : ∀ key v, m key = some v ↔ (key, v) ∈ entries)
    (hperm : entries'.Perm (entries.filter fun e => e.1 ≠ key)) (k : K) (v : V) :
    Function.update m key none k = some v ↔ (k, v) ∈ entries' := by
  rw [hperm.mem_iff, List.mem_filter, ← hm]
  by_cases hk : k = key
  · subst hk
    simp
  · simp [hk]

/-! ## One call -/

section Call

/-- What a call leaves behind: the tree stands for the map after it. -/
def Answers (s : BPlusTree K V) (fuel n : Nat) (m : K → Option V) (c : MapCall K V) : Prop :=
  ∃ s', c.call fuel s = some ((c.spec m).1, s') ∧ s'.IsMap (n + 1) (c.spec m).2 ∧
    s'.leafMaxSize = s.leafMaxSize ∧ s'.internalMaxSize = s.internalMaxSize

theorem insert_isMap (hs : s.IsMap n m) (hlm : 2 ≤ s.leafMaxSize) (him : 3 ≤ s.internalMaxSize)
    (hfuel : n ≤ fuel) (key : K) (value : V) : s.Answers fuel n m (.insert key value) := by
  cases hs with
  | empty hroot hnext hm =>
    obtain ⟨s', page, hrun, hwf, harray, hmax, -, hleaf, hinternal⟩ :=
      @insert_empty K V _ _ _ { s with log := [] } hroot hnext ⟨rfl, trivial⟩ hlm key value fuel
    have hentries : (leaf s.nextPageId page).entries = [(key, value)] := by
      rw [entries_leaf, harray]
    have hm' : ∀ key v, m key = some v ↔ (key, v) ∈ ([] : List (K × V)) := by simp [hm]
    refine ⟨s', ?_, ?_, hleaf, hinternal⟩
    · rw [MapCall.call, hrun, MapCall.spec, hm]
      rfl
    · rw [MapCall.spec, hm]
      refine .tree hwf (rootMin_leaf.mpr ?_) hmax ?_ fun k v => ?_
      · rw [harray]
        exact Nat.le_refl 1
      · rw [hentries]
        exact Nat.le_add_left 1 n
      · exact update_some_iff (hm key) hm' (by rw [hentries]) k v
  | @tree h t hwf hmin hmax hlen hm =>
    have hheight := hmin.height_lt_length hlm him hwf.sized
    have hspec := insert_root (hwf.setLog []) hlm him ⟨rfl, trivial⟩ key value
      (hheight.trans (hlen.trans hfuel))
    have hcall : (MapCall.insert key value).call fuel s =
        (BPlusTree.insert fuel { s with log := [] } key value).map fun r =>
          (.inserted r.1, r.2) := rfl
    generalize BPlusTree.insert fuel { s with log := [] } key value = run at hspec hcall
    cases hspec with
    | @duplicate log hmem _ =>
      obtain ⟨v, hv⟩ : ∃ v, m key = some v :=
        Option.ne_none_iff_exists'.mp fun hnone => (not_mem_keys_iff hm).mp hnone hmem
      refine ⟨{ s with log }, ?_, ?_, rfl, rfl⟩
      · rw [hcall, MapCall.spec, hv]
        rfl
      · rw [MapCall.spec, hv]
        exact .tree (hwf.setLog log) hmin hmax (hlen.trans (Nat.le_succ n)) hm
    | @added s' hmem _ hleaf hinternal htree =>
      obtain ⟨h', t', hwf', hmax', hmin', hperm⟩ := htree hmax
      have hnone : m key = none := (not_mem_keys_iff hm).mpr hmem
      refine ⟨s', ?_, ?_, hleaf, hinternal⟩
      · rw [hcall, MapCall.spec, hnone]
        rfl
      · rw [MapCall.spec, hnone]
        refine .tree hwf' (hmin' hmin) hmax' ?_ (update_some_iff hnone hm hperm)
        rw [hperm.length_eq, List.length_cons]
        exact Nat.succ_le_succ hlen

theorem remove_isMap (hs : s.IsMap n m) (hlm : 2 ≤ s.leafMaxSize) (him : 3 ≤ s.internalMaxSize)
    (hfuel : n ≤ fuel) (key : K) (hshallow : (MapCall.remove key : MapCall K V).Shallow s) :
    s.Answers fuel n m (.remove key) := by
  cases hs with
  | empty hroot hnext hm =>
    refine ⟨{ s with log := [] }, ?_, .empty hroot hnext fun k => ?_, rfl, rfl⟩
    · have hempty : BPlusTree.isEmpty { s with log := [] } = true := decide_eq_true hroot
      rw [MapCall.call, BPlusTree.remove, if_pos hempty]
      rfl
    · by_cases hk : k = key
      · rw [hk]
        exact Function.update_self ..
      · exact (Function.update_of_ne hk ..).trans (hm k)
  | @tree h t hwf hmin hmax hlen hm =>
    have hheight := hmin.height_lt_length hlm him hwf.sized
    have hcascades := hshallow h t hwf
    have hwf₀ := hwf.setLog []
    have hspec := remove_root hwf₀ ((rootMin_iff hwf₀.root hwf₀.id_ne hwf₀.rep).mpr hmin) hlm him
      ⟨rfl, trivial⟩ key (hheight.trans (hlen.trans hfuel))
    have hcall : (MapCall.remove key : MapCall K V).call fuel s =
        (BPlusTree.remove fuel { s with log := [] } key).map fun s => (.removed, s) := rfl
    generalize BPlusTree.remove fuel { s with log := [] } key = run at hspec hcall
    have hlen' : ∀ {entries : List (K × V)},
        entries.Perm (t.entries.filter fun e => e.1 ≠ key) → entries.length ≤ n + 1 := fun hperm =>
      (hperm.length_eq.trans_le (List.length_filter_le _ _)).trans (hlen.trans (Nat.le_succ n))
    cases hspec with
    | @absent log hkey _ =>
      have hperm : t.entries.Perm (t.entries.filter fun e => e.1 ≠ key) := by
        rw [filter_eq_self_of_not_mem hkey]
      exact ⟨{ s with log }, hcall,
        .tree (hwf.setLog log) hmin hmax (hlen' hperm) (update_none_iff hm hperm), rfl, rfl⟩
    | @emptied s' v hentries hroot hnext hleaf hinternal _ _ _ =>
      refine ⟨s', hcall, .empty hroot ?_ fun k => ?_, hleaf, hinternal⟩
      · have hid := hwf.alloc t.id (id_mem_ids t)
        rw [hnext]
        exact hid.1.trans hid.2.le
      · have hnil : (List.Perm [] (t.entries.filter fun e => decide (e.1 ≠ key))) := by
          rw [hentries, List.filter_cons_of_neg (by simp), List.filter_nil]
        rw [Option.eq_none_iff_forall_not_mem]
        intro v hv
        exact List.not_mem_nil ((update_none_iff hm hnil k v).mp hv)
    | @removed s' h' t' hrem _ _ =>
      obtain ⟨v, hperm⟩ := hrem.entries
      have hperm' := perm_filter_of_perm_cons hwf.ordered.increasing hperm
      exact ⟨s', hcall, .tree (hrem.wellFormed hwf₀ hcascades) hrem.rootMin (hrem.rootMax hmax)
        (hlen' hperm') (update_none_iff hm hperm'), hrem.leafMaxSize, hrem.internalMaxSize⟩

theorem getValue_isMap (hs : s.IsMap n m) (hlm : 2 ≤ s.leafMaxSize) (him : 3 ≤ s.internalMaxSize)
    (hfuel : n ≤ fuel) (key : K) : s.Answers fuel n m (.getValue key) := by
  cases hs with
  | empty hroot hnext hm =>
    refine ⟨{ s with log := [] }, ?_, .empty hroot hnext hm, rfl, rfl⟩
    have hempty : BPlusTree.isEmpty { s with log := [] } = true := decide_eq_true hroot
    rw [MapCall.call, BPlusTree.getValue, if_pos hempty, MapCall.spec, hm]
    rfl
  | @tree h t hwf hmin hmax hlen hm =>
    have hheight := hmin.height_lt_length hlm him hwf.sized
    obtain ⟨value, log, hrun, hvalue, -⟩ := getValue_spec ((hwf.setLog []).readable hmin hlm)
      (hheight.trans (hlen.trans hfuel)) key
    have heq : value = m key := Option.ext fun v => (hvalue v).trans (hm key v).symm
    refine ⟨{ s with log }, ?_, .tree (hwf.setLog log) hmin hmax (hlen.trans (Nat.le_succ n)) hm,
      rfl, rfl⟩
    rw [MapCall.call, hrun, heq]
    rfl

/-- **One call** answers as the map does. -/
theorem call_isMap (hs : s.IsMap n m) (hlm : 2 ≤ s.leafMaxSize) (him : 3 ≤ s.internalMaxSize)
    (hfuel : n ≤ fuel) (c : MapCall K V) (hshallow : c.Shallow s) : s.Answers fuel n m c := by
  cases c with
  | insert key value => exact insert_isMap hs hlm him hfuel key value
  | remove key => exact remove_isMap hs hlm him hfuel key hshallow
  | getValue key => exact getValue_isMap hs hlm him hfuel key

omit [Inhabited V] in
/-- **Maximum sizes below the capacities** of pages: every call is inside them. -/
theorem IsMap.inside (hs : s.IsMap n m) (hlm : s.leafMaxSize < leafCapacity)
    (him : s.internalMaxSize < internalCapacity) (c : MapCall K V) : c.Inside s := by
  intro h t hwf
  cases hs with
  | empty hroot _ _ => exact absurd (hwf.root.symm.trans hroot) hwf.id_ne
  | tree hwf' _ hmax' _ _ =>
    have hmax : s.RootMax := hwf'.rootMax_iff.mpr hmax'
    exact ⟨hwf.inPages hmax (Nat.le_of_lt hlm) (Nat.le_of_lt him),
      TreeOp.not_overruns hwf hmax hlm him c.op⟩

/-- **A run** answers as the map does. -/
theorem callRun_isMap (cs : List (MapCall K V)) : ∀ {s : BPlusTree K V} {n : Nat}
    {m : K → Option V}, s.IsMap n m → 2 ≤ s.leafMaxSize → 3 ≤ s.internalMaxSize →
    n + cs.length ≤ fuel → MapCall.ShallowRun fuel s cs →
    ∃ s', MapCall.callRun fuel s cs = some ((MapCall.specRun m cs).1, s') ∧
      s'.IsMap (n + cs.length) (MapCall.specRun m cs).2 ∧ s'.leafMaxSize = s.leafMaxSize ∧
      s'.internalMaxSize = s.internalMaxSize := by
  induction cs with
  | nil => exact fun hs _ _ _ _ => ⟨_, rfl, hs, rfl, rfl⟩
  | cons c cs ih =>
    intro s n m hs hlm him hfuel hshallow
    rw [List.length_cons] at hfuel
    have hn : n ≤ fuel := by omega
    obtain ⟨s₁, hcall, hs₁, hleaf, hinternal⟩ := call_isMap hs hlm him hn c hshallow.1
    obtain ⟨s', hrun, hs', hleaf', hinternal'⟩ := ih hs₁ (hleaf ▸ hlm) (hinternal ▸ him) (by omega)
      (hshallow.2 _ _ hcall)
    refine ⟨s', ?_, ?_, hleaf'.trans hleaf, hinternal'.trans hinternal⟩
    · rw [MapCall.callRun, hcall]
      show (MapCall.callRun fuel s₁ cs >>= _) = _
      rw [hrun]
      rfl
    · rw [show n + (c :: cs).length = n + 1 + cs.length by rw [List.length_cons]; omega]
      exact hs'

end Call

end BPlusTree

end OneBase
