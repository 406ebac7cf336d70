import Mathlib.Data.Finset.Card
import OneBase.Index.MapRun
import OneBase.Index.PageWrites

/-!
# The elements of `array_` that `Insert` writes

The capacities that the constructor computes are the numbers of elements that fit in a page.
`Insert` puts the new element into the page before it looks whether the page has to be split.

- `BPlusTree.insertRunWrites`: the elements that a run of `Insert` calls writes.
- `insertRunWrites_inBounds_iff`: when they are all inside their pages.
-/

namespace OneBase

open BTree

namespace BPlusTree

variable {K V : Type} [LinearOrder K] [Inhabited K] [Inhabited V]

/-- The elements that a run of `Insert` calls writes. -/
def insertRunWrites (fuel : Nat) (s : BPlusTree K V) : List (K × V) → List ArrayWrite
  | [] => []
  | (key, value) :: calls =>
    s.insertWrites fuel key value ++
      match (MapCall.insert key value).call fuel s with
      | none => []
      | some (_, s) => insertRunWrites fuel s calls

/-! ## A tree of one leaf -/

/-- The tree is empty or one leaf, which has these keys and is not overfull. -/
inductive Loaded (s : BPlusTree K V) (keys : Finset K) : Prop where
  | empty : s.rootPageId = invalidPageId → 0 ≤ s.nextPageId → keys = ∅ → Loaded s keys
  | leaf {id : PageId} {page : LeafPage K V} : s.WellFormed (leaf id page) →
      page.array.length ≤ s.leafMaxSize → keys = (page.array.map Prod.fst).toFinset → Loaded s keys

section OneLeaf

variable {s : BPlusTree K V} {id : PageId} {page : LeafPage K V} {key : K} {value : V}

omit [Inhabited K] [Inhabited V] in
theorem WellFormed.card_keys (hwf : s.WellFormed (leaf id page)) :
    (page.array.map Prod.fst).toFinset.card = page.array.length := by
  have hinc : Increasing page.array := hwf.ordered
  have hnodup : (page.array.map Prod.fst).Nodup := List.pairwise_map.mpr (hinc.imp fun h => h.ne)
  rw [List.toFinset_card_of_nodup hnodup, List.length_map]

omit [Inhabited K] [Inhabited V] in
theorem WellFormed.rootLeaf (hwf : s.WellFormed (leaf id page)) :
    s.pages s.rootPageId = some (.leaf page) := by
  rw [hwf.root]
  exact hwf.rep.page

theorem insertWrites_leaf (hwf : s.WellFormed (leaf id page)) (fuel : Nat) (key : K) (value : V) :
    s.insertWrites (fuel + 1) key value =
      (s.fetchPage s.rootPageId .write).insertIntoLeafWrites (fuel + 1) s.rootPageId key value := by
  have hpage : (s.fetchPage s.rootPageId .write).pages s.rootPageId = some (.leaf page) :=
    hwf.rootLeaf
  rw [insertWrites, hwf.not_isEmpty, if_neg Bool.false_ne_true, findLeaf_leaf hpage]

theorem call_leaf (hwf : s.WellFormed (leaf id page)) (fuel : Nat) (key : K) (value : V) :
    (MapCall.insert key value).call (fuel + 1) s =
      ((fetchPage { s with log := [] } s.rootPageId .write).insertIntoLeaf (fuel + 1)
        s.rootPageId key
        value).map fun r => (.inserted r.1, r.2) := by
  have hpage : (fetchPage { s with log := [] } s.rootPageId .write).pages s.rootPageId =
      some (.leaf page) := hwf.rootLeaf
  rw [MapCall.call, BPlusTree.insert, (hwf.setLog []).not_isEmpty, if_neg Bool.false_ne_true]
  show ((fetchPage { s with log := [] } s.rootPageId .write).findLeaf _ _ (fuel + 1)
      s.rootPageId >>=
    _).map _ = _
  rw [findLeaf_leaf hpage]
  rfl

/-- The writes on a leaf that is not split. -/
theorem insertIntoLeafWrites_room (hpage : s.leafAt id = some page)
    (hroom : (page.insert key value).array.length ≤ (page.insert key value).maxSize) (fuel : Nat) :
    s.insertIntoLeafWrites fuel id key value = (page.insertWrites key).map (.leaf id) := by
  rw [insertIntoLeafWrites, hpage]
  show _ ++ (if (page.insert key value).array.length = page.array.length then [] else
    if (page.insert key value).maxSize < (page.insert key value).array.length then _ else []) = _
  rw [if_neg (Nat.not_lt.mpr hroom), ite_self, List.append_nil]

/-- **A leaf with room**: the writes are among the first elements, and the leaf stays one. -/
theorem Loaded.insert {keys : Finset K} (hs : s.Loaded keys) (hlm : 2 ≤ s.leafMaxSize)
    (hroom : key ∈ keys ∨ keys.card < s.leafMaxSize) (fuel : Nat) (value : V) :
    (∀ w ∈ s.insertWrites (fuel + 1) key value, ∃ p i, w = .leaf p i ∧ i < s.leafMaxSize) ∧
      ∃ r s', (MapCall.insert key value).call (fuel + 1) s = some (r, s') ∧
        s'.Loaded (Insert.insert key keys) ∧ s'.leafMaxSize = s.leafMaxSize := by
  cases hs with
  | empty hroot hnext hkeys =>
    have hempty : s.isEmpty = true := decide_eq_true hroot
    constructor
    · intro w hw
      rw [insertWrites, if_pos hempty] at hw
      obtain ⟨i, hi, rfl⟩ := List.mem_map.mp hw
      have hle := (@LeafPage.mem_insertWrites K V _ _ _ (LeafPage.init s.leafMaxSize) key .nil
        List.not_mem_nil).1 i hi
      exact ⟨_, i, rfl, by rw [Nat.le_zero.mp hle]; omega⟩
    · obtain ⟨s', page, hrun, hwf, harray, hmax, -, hleaf, -⟩ :=
        @insert_empty K V _ _ _ { s with log := [] } hroot hnext ⟨rfl, trivial⟩ hlm key value
          (fuel + 1)
      refine ⟨_, s', by rw [MapCall.call, hrun]; rfl, .leaf hwf ?_ ?_, hleaf⟩
      · rw [← hwf.sized]
        exact hmax
      · rw [hkeys, harray]
        rfl
  | @leaf id page hwf hle hkeys =>
    obtain rfl : s.rootPageId = id := hwf.root
    have hinc : Increasing page.array := hwf.ordered
    have hmax : page.maxSize = s.leafMaxSize := hwf.sized
    have hleaf : (s.fetchPage s.rootPageId .write).leafAt s.rootPageId = some page :=
      leafAt_eq hwf.rootLeaf
    have hpage : (fetchPage { s with log := [] } s.rootPageId .write).pages s.rootPageId =
      some (.leaf page) := hwf.rootLeaf
    rw [insertWrites_leaf hwf, call_leaf hwf]
    rcases LeafPage.insert_cases hinc key value with
      ⟨hmem, hinsert⟩ | ⟨hmem, l, r, harray, hl, hr, hinsert⟩
    · have hin : key ∈ keys := by
        rw [hkeys, List.mem_toFinset]
        exact hmem
      rw [insertIntoLeafWrites_room hleaf (by rw [hinsert, hmax]; exact hle),
        LeafPage.insertWrites_of_mem hinc hmem, insertIntoLeaf_duplicate hpage hinsert]
      refine ⟨fun w hw => absurd hw List.not_mem_nil, _, _, rfl, ?_, rfl⟩
      exact .leaf (hwf.setLog _) hle (by rw [Finset.insert_eq_of_mem hin, hkeys])
    · have hnot : key ∉ keys := by
        rw [hkeys, List.mem_toFinset]
        exact hmem
      have hlt : page.array.length < s.leafMaxSize := by
        have hcard := hroom.resolve_left hnot
        rwa [hkeys, hwf.card_keys] at hcard
      have hlen : (l ++ (key, value) :: r).length = page.array.length + 1 := by
        rw [harray, List.length_append, List.length_append, List.length_cons, Nat.add_assoc]
      rw [insertIntoLeafWrites_room hleaf (by rw [hinsert, hmax, hlen]; exact hlt),
        insertIntoLeaf_room hpage harray hinsert (hmax ▸ hlt)]
      constructor
      · intro w hw
        obtain ⟨i, hi, rfl⟩ := List.mem_map.mp hw
        exact ⟨_, i, rfl, ((LeafPage.mem_insertWrites hinc hmem).1 i hi).trans_lt hlt⟩
      · refine ⟨_, _, rfl, .leaf (hwf.insertLeaf harray hl hr _) (hlen.trans_le hlt) ?_, rfl⟩
        rw [hkeys, harray]
        ext k
        simp

/-- **A full leaf**: the first write of a new key is past the maximum size. -/
theorem Loaded.insert_full {keys : Finset K} (hs : s.Loaded keys) (hpos : 0 < s.leafMaxSize)
    (hkey : key ∉ keys) (hfull : keys.card = s.leafMaxSize) (fuel : Nat) (value : V) :
    ∃ p, .leaf p s.leafMaxSize ∈ s.insertWrites (fuel + 1) key value := by
  cases hs with
  | empty hroot hnext hkeys =>
    rw [hkeys, Finset.card_empty] at hfull
    exact absurd hpos (by omega)
  | @leaf id page hwf hle hkeys =>
    have hinc : Increasing page.array := hwf.ordered
    have hmem : key ∉ page.array.map Prod.fst := by
      rw [← List.mem_toFinset, ← hkeys]
      exact hkey
    have hleaf : (s.fetchPage s.rootPageId .write).leafAt s.rootPageId = some page :=
      leafAt_eq hwf.rootLeaf
    rw [hkeys, hwf.card_keys] at hfull
    refine ⟨s.rootPageId, ?_⟩
    rw [insertWrites_leaf hwf, insertIntoLeafWrites, hleaf]
    refine List.mem_append_left _ (List.mem_map_of_mem ?_)
    rw [← hfull]
    exact (LeafPage.mem_insertWrites hinc hmem).2

end OneLeaf

/-! ## Runs -/

/-- **The elements that a run writes** from a tree of one leaf on. -/
theorem Loaded.insertRun {fuel : Nat} (calls : List (K × V)) : ∀ {s : BPlusTree K V}
    {keys : Finset K}, s.Loaded keys → s.leafMaxSize = 339 → keys.card ≤ 339 →
    ((∀ w ∈ s.insertRunWrites (fuel + 1) calls, w.InBounds) ↔
      (keys ∪ (calls.map Prod.fst).toFinset).card ≤ 339) := by
  induction calls with
  | nil =>
    intro s keys _ _ hcard
    rw [List.map_nil, List.toFinset_nil, Finset.union_empty]
    exact iff_of_true (fun w hw => absurd hw List.not_mem_nil) hcard
  | cons c calls ih =>
    intro s keys hs hmax hcard
    have hkeys : keys ∪ ((c :: calls).map Prod.fst).toFinset =
        Insert.insert c.1 keys ∪ (calls.map Prod.fst).toFinset := by
      rw [List.map_cons, List.toFinset_cons, Finset.union_insert, Finset.insert_union]
    rw [hkeys]
    by_cases hroom : c.1 ∈ keys ∨ keys.card < s.leafMaxSize
    · obtain ⟨hwrites, r, s', hcall, hs', hmax'⟩ := hs.insert (by omega) hroom fuel c.2
      have hcard' : (Insert.insert c.1 keys).card ≤ 339 := by
        rcases hroom with hin | hlt
        · rwa [Finset.insert_eq_of_mem hin]
        · exact (Finset.card_insert_le _ _).trans (by omega)
      rw [← ih hs' (hmax'.trans hmax) hcard', insertRunWrites, hcall]
      simp only [List.forall_mem_append]
      refine and_iff_right fun w hw => ?_
      obtain ⟨p, i, rfl, hi⟩ := hwrites w hw
      exact (inBounds_leaf p i).mpr (show i < 339 from hmax ▸ hi)
    · -- the leaf is full, and the key is new
      obtain ⟨hkey, hfull⟩ := not_or.mp hroom
      have hcard' : keys.card = s.leafMaxSize := by omega
      obtain ⟨p, hwrite⟩ := hs.insert_full (by omega) hkey hcard' fuel c.2
      refine iff_of_false (fun hall => ?_) fun hle => ?_
      · have hbad := hall _ (List.mem_append_left _ hwrite)
        rw [inBounds_leaf, hmax] at hbad
        exact Nat.lt_irrefl _ hbad
      · have hsub := Finset.card_le_card (@Finset.subset_union_left _ _ (Insert.insert c.1 keys)
          (calls.map Prod.fst).toFinset)
        rw [Finset.card_insert_of_notMem hkey] at hsub
        omega

theorem shallowRun_insert (fuel : Nat) (calls : List (K × V)) : ∀ s : BPlusTree K V,
    MapCall.ShallowRun fuel s (calls.map fun c => .insert c.1 c.2) := by
  induction calls with
  | nil => exact fun _ => trivial
  | cons c calls ih => exact fun s => ⟨trivial, fun r s' _ => ih s'⟩

/-- **With the default capacities**, the elements that a run of `Insert` calls writes are inside
their pages if and only if it inserts no more than 339 keys: the 340th is put into a full leaf. -/
theorem insertRunWrites_inBounds_iff (calls : List (Int × RID)) (fuel : Nat)
    (hfuel : calls.length ≤ fuel) :
    (∃ results s', MapCall.callRun fuel (construct 4 8 0 0)
        (calls.map fun c => .insert c.1 c.2) = some (results, s')) ∧
      ((∀ w ∈ insertRunWrites fuel (construct 4 8 0 0) calls, w.InBounds) ↔
        (calls.map Prod.fst).toFinset.card ≤ 339) := by
  constructor
  · obtain ⟨s', hrun, -⟩ := callRun_isMap (n := 0) (calls.map fun c => MapCall.insert c.1 c.2)
      (.empty rfl (Int.le_refl 0) fun _ => rfl) (by decide : 2 ≤ 339) (by decide : 3 ≤ 510)
      (by rwa [Nat.zero_add, List.length_map]) (shallowRun_insert fuel calls (construct 4 8 0 0))
    exact ⟨_, s', hrun⟩
  · have hloaded : (construct 4 8 0 0 : BPlusTree Int RID).Loaded ∅ :=
      .empty rfl (Int.le_refl 0) rfl
    cases fuel with
    | zero =>
      obtain rfl := List.length_eq_zero_iff.mp (Nat.le_zero.mp hfuel)
      exact iff_of_true (fun w hw => absurd hw List.not_mem_nil) (Nat.zero_le _)
    | succ fuel =>
      rw [hloaded.insertRun calls rfl (Nat.zero_le _), Finset.empty_union]

/-- Two keys, one of them twice. -/
theorem insertRunWrites_inBounds_iff_two :
    (∃ results s', MapCall.callRun 3 (construct 4 8 0 0)
        ([((1 : Int), ({} : RID)), (2, {}), (1, {})].map fun c => .insert c.1 c.2) =
          some (results, s')) ∧
      ∀ w ∈ insertRunWrites 3 (construct 4 8 0 0) [((1 : Int), ({} : RID)), (2, {}), (1, {})],
        w.InBounds := by
  obtain ⟨hrun, hiff⟩ :=
    insertRunWrites_inBounds_iff [(1, {}), (2, {}), (1, {})] 3 (Nat.le_refl 3)
  exact ⟨hrun, hiff.mpr (by decide)⟩

/-- The keys 0 to 339. -/
theorem insertRunWrites_overrun :
    ¬ ∀ (calls : List (Int × RID)) (fuel : Nat), calls.length ≤ fuel →
      ∀ w ∈ insertRunWrites fuel (construct 4 8 0 0) calls, w.InBounds := by
  intro hall
  let calls : List (Int × RID) := (List.range 340).map fun i : Nat => ((i : Int), {})
  have hlen : calls.length = 340 := by rw [List.length_map, List.length_range]
  have hnodup : (calls.map Prod.fst).Nodup := by
    rw [List.map_map]
    exact List.nodup_range.map fun i j hij => Int.ofNat.inj hij
  have hloaded : (construct 4 8 0 0 : BPlusTree Int RID).Loaded ∅ := .empty rfl (Int.le_refl 0) rfl
  have hcard := (hloaded.insertRun calls rfl (Nat.zero_le _)).mp (hall calls 340 hlen.le)
  rw [Finset.empty_union, List.toFinset_card_of_nodup hnodup, List.length_map, hlen] at hcard
  exact absurd hcard (by decide)

end BPlusTree

end OneBase
