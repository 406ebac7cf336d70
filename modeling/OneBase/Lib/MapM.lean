import Mathlib.Data.List.Forall2

/-!
# Mapping a list with a function that may throw

- `mapM_eq_some_iff`: the result, element by element.
- `exists_mapM`: there is a result if the function throws on no element.
- `mapM_zipWith`: a result that is combined with the elements, one by one.
-/

namespace Cpp

variable {α β : Type} {f : α → Option β} {l : List α}

theorem mapM_eq_some_iff {r : List β} :
    l.mapM f = some r ↔ List.Forall₂ (fun a b => f a = some b) l r := by
  induction l generalizing r with
  | nil =>
    rw [List.forall₂_nil_left_iff, List.mapM_nil]
    exact ⟨fun h => (Option.some.inj h).symm, fun h => congrArg some h.symm⟩
  | cons a l ih =>
    rw [List.mapM_cons, List.forall₂_cons_left_iff]
    constructor
    · intro h
      obtain ⟨b, hb, h⟩ := Option.bind_eq_some_iff.mp h
      obtain ⟨bs, hbs, h⟩ := Option.bind_eq_some_iff.mp h
      exact ⟨b, bs, hb, ih.mp hbs, (Option.some.inj h).symm⟩
    · rintro ⟨b, bs, hb, hbs, rfl⟩
      rw [hb, ih.mpr hbs]
      rfl

theorem length_of_mapM {r : List β} (h : l.mapM f = some r) : r.length = l.length :=
  (mapM_eq_some_iff.mp h).length_eq.symm

theorem mapM_eq_some_map {g : α → β} (h : ∀ a ∈ l, f a = some (g a)) :
    l.mapM f = some (l.map g) :=
  mapM_eq_some_iff.mpr (List.forall₂_map_right_iff.mpr (List.forall₂_same.mpr h))

theorem exists_mapM (h : ∀ a ∈ l, ∃ b, f a = some b) : ∃ r, l.mapM f = some r := by
  induction l with
  | nil => exact ⟨[], rfl⟩
  | cons a l ih =>
    obtain ⟨b, hb⟩ := h a List.mem_cons_self
    obtain ⟨bs, hbs⟩ := ih fun a' ha' => h a' (List.mem_cons_of_mem _ ha')
    exact ⟨b :: bs, mapM_eq_some_iff.mpr (.cons hb (mapM_eq_some_iff.mp hbs))⟩

/-- The function throws on no element. -/
theorem exists_of_mem_of_mapM {r : List β} (h : l.mapM f = some r) {a : α} (ha : a ∈ l) :
    ∃ b, f a = some b := by
  have hr := mapM_eq_some_iff.mp h
  clear h
  induction hr with
  | nil => exact absurd ha List.not_mem_nil
  | cons hfirst _ ih =>
    rcases List.mem_cons.mp ha with rfl | ha
    · exact ⟨_, hfirst⟩
    · exact ih ha

/-- What the result holds comes from an element. -/
theorem exists_of_mem_mapM {r : List β} (h : l.mapM f = some r) {b : β} (hb : b ∈ r) :
    ∃ a ∈ l, f a = some b := by
  have hr := mapM_eq_some_iff.mp h
  clear h
  induction hr with
  | nil => exact absurd hb List.not_mem_nil
  | cons hfirst _ ih =>
    rcases List.mem_cons.mp hb with rfl | hb
    · exact ⟨_, List.mem_cons_self, hfirst⟩
    · obtain ⟨a, ha, hval⟩ := ih hb
      exact ⟨a, List.mem_cons_of_mem _ ha, hval⟩

/-- A function that reads the element once more. -/
theorem mapM_zipWith {γ : Type} {g : α → β → γ} {r : List β} (h : l.mapM f = some r) :
    l.mapM (fun a => (f a).map (g a)) = some (List.zipWith g l r) := by
  rw [mapM_eq_some_iff] at h ⊢
  induction h with
  | nil => exact .nil
  | cons hfirst _ ih => exact .cons (by rw [hfirst, Option.map_some]) ih

end Cpp
