import Mathlib.Data.List.Basic

/-!
# Loops that act on the first match

`modifyFirst p f` is the loop `for (x : l) if (p(x)) { f(x); break; }`; the loop
that erases its first match is `List.eraseP`. Seen through a filter `q`, both
either act on the filtered list or do nothing, depending on whether the matches
are among the elements `q` keeps.
-/

namespace Cpp

variable {α : Type} {p q : α → Bool} {f : α → α}

/-- Apply `f` to the first element that satisfies `p`. -/
def modifyFirst (p : α → Bool) (f : α → α) : List α → List α
  | [] => []
  | a :: l => if p a then f a :: l else a :: modifyFirst p f l

/-- Matches that the filter keeps, before and after. -/
theorem filter_modifyFirst_of_imp (hp : ∀ a, p a = true → q a = true ∧ q (f a) = true)
    (l : List α) : (modifyFirst p f l).filter q = modifyFirst p f (l.filter q) := by
  induction l with
  | nil => rfl
  | cons a l ih =>
    by_cases ha : p a = true
    · obtain ⟨hq, hqf⟩ := hp a ha
      simp [modifyFirst, ha, hq, hqf]
    · by_cases hq : q a = true
      · simp [modifyFirst, ha, hq, ih]
      · simp [modifyFirst, ha, hq, ih]

/-- Matches that the filter drops, before and after. -/
theorem filter_modifyFirst_of_disjoint
    (hp : ∀ a, p a = true → q a = false ∧ q (f a) = false) (l : List α) :
    (modifyFirst p f l).filter q = l.filter q := by
  induction l with
  | nil => rfl
  | cons a l ih =>
    by_cases ha : p a = true
    · obtain ⟨hq, hqf⟩ := hp a ha
      simp [modifyFirst, ha, hq, hqf]
    · by_cases hq : q a = true
      · simp [modifyFirst, ha, hq, ih]
      · simp [modifyFirst, ha, hq, ih]

/-- Erasing a match that the filter keeps. -/
theorem filter_eraseP_of_imp (hp : ∀ a, p a = true → q a = true) (l : List α) :
    (l.eraseP p).filter q = (l.filter q).eraseP p := by
  induction l with
  | nil => rfl
  | cons a l ih =>
    by_cases ha : p a = true
    · simp [ha, hp a ha]
    · by_cases hq : q a = true
      · simp [ha, hq, ih]
      · simp [ha, hq, ih]

/-- Erasing a match that the filter drops. -/
theorem filter_eraseP_of_disjoint (hp : ∀ a, p a = true → q a = false) (l : List α) :
    (l.eraseP p).filter q = l.filter q := by
  induction l with
  | nil => rfl
  | cons a l ih =>
    by_cases ha : p a = true
    · simp [ha, hp a ha]
    · by_cases hq : q a = true
      · simp [ha, hq, ih]
      · simp [ha, hq, ih]

/-- The elements of the result: unchanged ones, or the image of a match. -/
theorem mem_modifyFirst {l : List α} {b : α} (h : b ∈ modifyFirst p f l) :
    b ∈ l ∨ ∃ a ∈ l, p a = true ∧ b = f a := by
  induction l with
  | nil => exact absurd h List.not_mem_nil
  | cons a l ih =>
    rw [modifyFirst] at h
    split at h
    · rcases List.mem_cons.mp h with rfl | hb
      · exact .inr ⟨a, List.mem_cons_self, ‹_›, rfl⟩
      · exact .inl (List.mem_cons_of_mem _ hb)
    · rcases List.mem_cons.mp h with rfl | hb
      · exact .inl List.mem_cons_self
      · rcases ih hb with hb | ⟨c, hc, hpc, rfl⟩
        · exact .inl (List.mem_cons_of_mem _ hb)
        · exact .inr ⟨c, List.mem_cons_of_mem _ hc, hpc, rfl⟩

end Cpp
