import Mathlib.Data.List.AList

/-!
# Grouping rows in a map

A loop puts rows into groups: the key of a row selects an entry of a map, which is
updated with the row, and is new if the map has none. `none` is an exception of the
key or of the update.

- `groupRows_lookup`: the entry of a key is the fold of the update over the rows with
  that key, and there is an entry for each key that occurs.
- `groupRows_isSome`: the loop does not throw if none of these folds does.
- `entries_perm`: an iteration meets each key once, in some order.
-/

namespace Cpp

variable {K V R : Type} [DecidableEq K]

/-- An order of iteration: each entry of the map is met once. -/
structure MapOrder (K V : Type) where
  entries : (AList fun _ : K => V) → List (Σ _ : K, V)
  perm : ∀ m, (entries m).Perm m.entries

/-- The order in which the map stores its entries. -/
def MapOrder.stored (K V : Type) : MapOrder K V := ⟨fun m => m.entries, fun _ => .refl _⟩

section

variable (key : R → Option K) (start : V) (step : V → R → Option V)

/-- One row. -/
def groupRow (m : AList fun _ : K => V) (r : R) : Option (AList fun _ : K => V) :=
  (key r).bind fun k => (step ((m.lookup k).getD start) r).map fun v => m.insert k v

/-- The rows with a key. -/
def rowsWith (rows : List R) (k : K) : List R := rows.filter fun r => key r = some k

end

section

variable {key : R → Option K} {start : V} {step : V → R → Option V}

theorem mem_rowsWith {rows : List R} {k : K} {r : R} :
    r ∈ rowsWith key rows k ↔ r ∈ rows ∧ key r = some k := by
  simp [rowsWith]

theorem rowsWith_cons_self {rows : List R} {k : K} {r : R} (hr : key r = some k) :
    rowsWith key (r :: rows) k = r :: rowsWith key rows k := by
  simp [rowsWith, hr]

theorem rowsWith_cons_ne {rows : List R} {k : K} {r : R} (hr : key r ≠ some k) :
    rowsWith key (r :: rows) k = rowsWith key rows k := by
  simp [rowsWith, hr]

/-- What one row does: its key and the update succeed, and its entry is replaced. -/
theorem groupRow_eq_some {m m' : AList fun _ : K => V} {r : R}
    (h : groupRow key start step m r = some m') :
    ∃ k v, key r = some k ∧ step ((m.lookup k).getD start) r = some v ∧ m' = m.insert k v := by
  obtain ⟨k, hk, h⟩ := Option.bind_eq_some_iff.mp h
  obtain ⟨v, hv, rfl⟩ := Option.map_eq_some_iff.mp h
  exact ⟨k, v, hk, hv, rfl⟩

/-- **The entry of a key** after the loop is the fold over the rows with that key. The
induction is on the rows, from any map. -/
theorem groupRows_lookup {rows : List R} :
    ∀ {m m' : AList fun _ : K => V}, rows.foldlM (groupRow key start step) m = some m' →
      ∀ k, (rowsWith key rows k).foldlM step ((m.lookup k).getD start) =
          some ((m'.lookup k).getD start) ∧
        (k ∈ m' ↔ k ∈ m ∨ ∃ r ∈ rows, key r = some k) := by
  induction rows with
  | nil =>
    intro m m' h k
    obtain rfl := Option.some.inj h
    simp [rowsWith]
  | cons r rows ih =>
    intro m m' h k
    rw [List.foldlM_cons] at h
    obtain ⟨m₁, hrow, hrest⟩ := Option.bind_eq_some_iff.mp h
    obtain ⟨k₁, v, hkey, hstep, rfl⟩ := groupRow_eq_some hrow
    obtain ⟨hfold, hmem⟩ := ih hrest k
    by_cases hk : k = k₁
    · subst hk
      rw [AList.lookup_insert, Option.getD_some] at hfold
      refine ⟨?_, ?_⟩
      · rw [rowsWith_cons_self hkey, List.foldlM_cons, hstep]
        exact hfold
      · rw [hmem]
        simp [hkey]
    · have hne : key r ≠ some k := by
        rw [hkey]
        exact fun heq => hk (Option.some.inj heq).symm
      rw [AList.lookup_insert_ne hk] at hfold
      refine ⟨?_, ?_⟩
      · rw [rowsWith_cons_ne hne]
        exact hfold
      · rw [hmem]
        simp [hk, hne]

/-- **The loop succeeds** if each row has a key and no fold over the rows with one key
throws. -/
theorem groupRows_isSome {rows : List R} (hkey : ∀ r ∈ rows, (key r).isSome) :
    ∀ {m : AList fun _ : K => V},
      (∀ k, ((rowsWith key rows k).foldlM step ((m.lookup k).getD start)).isSome) →
      ∃ m', rows.foldlM (groupRow key start step) m = some m' := by
  induction rows with
  | nil => exact fun {m} _ => ⟨m, rfl⟩
  | cons r rows ih =>
    intro m hfold
    obtain ⟨k, hk⟩ := Option.isSome_iff_exists.mp (hkey r List.mem_cons_self)
    have hself := hfold k
    rw [rowsWith_cons_self hk, List.foldlM_cons] at hself
    obtain ⟨v, hv⟩ : ∃ v, step ((m.lookup k).getD start) r = some v := by
      cases hstep : step ((m.lookup k).getD start) r with
      | none =>
        rw [hstep] at hself
        cases hself
      | some v => exact ⟨v, rfl⟩
    have hrow : groupRow key start step m r = some (m.insert k v) := by
      simp [groupRow, hk, hv]
    rw [List.foldlM_cons, hrow]
    refine ih (fun r' hr' => hkey r' (List.mem_cons_of_mem _ hr')) fun k' => ?_
    by_cases hk' : k' = k
    · subst hk'
      rw [hv] at hself
      rw [AList.lookup_insert]
      exact hself
    · have hother := hfold k'
      rw [rowsWith_cons_ne (by rw [hk]; exact fun heq => hk' (Option.some.inj heq).symm)] at hother
      rw [AList.lookup_insert_ne hk']
      exact hother

/-- If the loop succeeds, each row has a key. -/
theorem exists_key_of_groupRows {rows : List R} :
    ∀ {m m' : AList fun _ : K => V}, rows.foldlM (groupRow key start step) m = some m' →
      ∀ r ∈ rows, ∃ k, key r = some k := by
  induction rows with
  | nil => exact fun _ r hr => absurd hr List.not_mem_nil
  | cons r rows ih =>
    intro m m' h r' hr'
    rw [List.foldlM_cons] at h
    obtain ⟨m₁, hrow, hrest⟩ := Option.bind_eq_some_iff.mp h
    rcases List.mem_cons.mp hr' with rfl | hr'
    · obtain ⟨k, -, hk, -⟩ := groupRow_eq_some hrow
      exact ⟨k, hk⟩
    · exact ih hrest r' hr'

/-- If the fold of one group throws, so does the loop. -/
theorem groupRows_eq_none {rows : List R} {k : K}
    (h : (rowsWith key rows k).foldlM step start = none) :
    rows.foldlM (groupRow key start step) ∅ = none := by
  refine Option.eq_none_iff_forall_not_mem.mpr fun m' hm' => ?_
  have hfold := (groupRows_lookup hm' k).1
  rw [AList.lookup_empty, Option.getD_none, h] at hfold
  cases hfold

end

/-- **An iteration** meets the keys of the map in some order, each with its entry. -/
theorem entries_perm (order : MapOrder K V) {m : AList fun _ : K => V} {keys : List K}
    (hnodup : keys.Nodup) (hkeys : ∀ k, k ∈ keys ↔ k ∈ m) (default : V) :
    (order.entries m).Perm (keys.map fun k => ⟨k, (m.lookup k).getD default⟩) := by
  have hmap : m.entries = m.keys.map fun k => ⟨k, (m.lookup k).getD default⟩ := by
    rw [AList.keys, List.keys, List.map_map]
    refine ((List.map_congr_left fun e he => ?_).trans (List.map_id _)).symm
    have hlookup : m.lookup e.1 = some e.2 := AList.mem_lookup_iff.mpr he
    simp [hlookup]
  have hperm : m.keys.Perm keys :=
    (List.perm_ext_iff_of_nodup m.keys_nodup hnodup).mpr fun k => by
      rw [hkeys, AList.mem_keys]
  refine (order.perm m).trans ?_
  rw [hmap]
  exact hperm.map _

end Cpp
