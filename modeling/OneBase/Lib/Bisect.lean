import Mathlib.Data.List.Basic

/-!
# Binary search

The loop `while (left < right)` of a lower bound search. `p` is the test at the middle;
where it is monotone on the range, the result is the first position at which it holds.
-/

namespace Bisect

/-- The loop on the range from `left` to `right`. -/
def bisect (p : Nat → Bool) : (fuel left right : Nat) → Nat
  | 0, left, _ => left
  | fuel + 1, left, right =>
    if left < right then
      let mid := left + (right - left) / 2
      if p mid then bisect p fuel left mid else bisect p fuel (mid + 1) right
    else left

variable {p : Nat → Bool}

/-- **The result splits the range** into positions where the test fails and positions
where it holds. -/
theorem bisect_spec (fuel : Nat) : ∀ {left right : Nat}, left ≤ right → right - left ≤ fuel →
    (∀ i j, left ≤ i → i ≤ j → j < right → p i = true → p j = true) →
    left ≤ bisect p fuel left right ∧ bisect p fuel left right ≤ right ∧
      (∀ i, left ≤ i → i < bisect p fuel left right → p i = false) ∧
      ∀ i, bisect p fuel left right ≤ i → i < right → p i = true := by
  induction fuel with
  | zero =>
    intro left right hle hfuel hmono
    have hsame : left = right := by omega
    subst hsame
    refine ⟨Nat.le_refl _, Nat.le_refl _, fun i h₁ h₂ => ?_, fun i h₁ h₂ => ?_⟩
    · exact absurd h₂ (Nat.not_lt.mpr h₁)
    · exact absurd h₂ (Nat.not_lt.mpr h₁)
  | succ fuel ih =>
    intro left right hle hfuel hmono
    unfold bisect
    by_cases hlt : left < right
    · rw [if_pos hlt]
      -- the middle is in the range
      have hmid : left ≤ left + (right - left) / 2 ∧ left + (right - left) / 2 < right := by omega
      generalize left + (right - left) / 2 = mid at hmid
      cases hp : p mid with
      | true =>
        obtain ⟨h₁, h₂, h₃, h₄⟩ := @ih left mid hmid.1 (by omega)
          fun i j hi hij hj => hmono i j hi hij (by omega)
        simp only [hp, if_true]
        refine ⟨h₁, by omega, h₃, fun i hi hir => ?_⟩
        by_cases him : i < mid
        · exact h₄ i hi him
        · exact hmono mid i hmid.1 (Nat.not_lt.mp him) hir hp
      | false =>
        obtain ⟨h₁, h₂, h₃, h₄⟩ := @ih (mid + 1) right (by omega) (by omega)
          fun i j hi hij hj => hmono i j (by omega) hij hj
        simp only [hp, Bool.false_eq_true, if_false]
        refine ⟨by omega, h₂, fun i hi him => ?_, h₄⟩
        by_cases hle' : mid + 1 ≤ i
        · exact h₃ i hle' him
        · cases hpi : p i with
          | false => rfl
          | true =>
            rw [hmono i mid hi (by omega) hmid.2 hpi] at hp
            exact absurd hp (by decide)
    · rw [if_neg hlt]
      refine ⟨Nat.le_refl _, hle, fun i h₁ h₂ => ?_, fun i h₁ h₂ => ?_⟩
      · exact absurd h₂ (Nat.not_lt.mpr h₁)
      · omega

/-- **The search in a list** from position `left` on: the elements before the result fail
the test, the others pass it. -/
theorem bisect_list {α : Type} (q : α → Bool) (d : α) (xs : List α) {left : Nat}
    (hleft : left ≤ xs.length)
    (hmono : (xs.drop left).Pairwise fun a b => q a = true → q b = true) :
    ∃ m, bisect (fun i => q (xs.getD i d)) xs.length left xs.length = m ∧ left ≤ m ∧
      m ≤ xs.length ∧ (∀ x ∈ (xs.take m).drop left, q x = false) ∧
      ∀ x ∈ xs.drop m, q x = true := by
  have hget : ∀ i, left ≤ i → i < xs.length → xs.getD i d = (xs.drop left).getD (i - left) d := by
    intro i hi h
    have hidx : left + (i - left) = i := by omega
    simp [List.getD_eq_getElem?_getD, hidx]
  have hpair : ∀ i j, left ≤ i → i < j → j < xs.length →
      q (xs.getD i d) = true → q (xs.getD j d) = true := by
    intro i j hi hij hj hqi
    have hi' : i - left < (xs.drop left).length := by rw [List.length_drop]; omega
    have hj' : j - left < (xs.drop left).length := by rw [List.length_drop]; omega
    rw [hget i hi (by omega), List.getD_eq_getElem?_getD,
      List.getElem?_eq_getElem hi'] at hqi
    rw [hget j (by omega) hj, List.getD_eq_getElem?_getD,
      List.getElem?_eq_getElem hj']
    exact List.pairwise_iff_getElem.mp hmono _ _ hi' hj' (by omega) hqi
  obtain ⟨h₁, h₂, h₃, h₄⟩ := bisect_spec (p := fun i => q (xs.getD i d)) xs.length hleft
    (Nat.sub_le _ _) (fun i j hi hij hj hqi => by
      rcases Nat.eq_or_lt_of_le hij with rfl | hlt
      · exact hqi
      · exact hpair i j hi hlt hj hqi)
  refine ⟨_, rfl, h₁, h₂, fun x hx => ?_, fun x hx => ?_⟩
  · obtain ⟨i, hi, rfl⟩ := List.getElem_of_mem hx
    rw [List.length_drop, List.length_take] at hi
    have hq := h₃ (left + i) (by omega) (by omega)
    rw [List.getD_eq_getElem?_getD, List.getElem?_eq_getElem (by omega)] at hq
    rw [List.getElem_drop, List.getElem_take]
    exact hq
  · obtain ⟨i, hi, rfl⟩ := List.getElem_of_mem hx
    rw [List.length_drop] at hi
    have hq := h₄ _ (Nat.le_add_right _ i) (by omega)
    rw [List.getD_eq_getElem?_getD, List.getElem?_eq_getElem (by omega)] at hq
    rw [List.getElem_drop]
    exact hq

end Bisect
