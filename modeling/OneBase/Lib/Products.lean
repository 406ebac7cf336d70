import Mathlib.Data.List.Sections

/-!
# Products of lists, and filters that may throw

`List.sections` lists one element of each list. A filter whose test has no value on an element
has no value.

- `length_sections_cons`: how many sections there are.
- `sections_of_singletons`: the section of lists of one element.
- `filterOption_eq`: when a filter has a value, and which.
-/

namespace Cpp

variable {α β : Type}

/-! ## Sections -/

/-- The elements that pass a test that may throw. -/
def filterOption (test : α → Option Bool) : List α → Option (List α)
  | [] => some []
  | a :: l =>
    match test a with
    | none => none
    | some true => (filterOption test l).map (a :: ·)
    | some false => filterOption test l

variable {test : α → Option Bool} {l l' : List α}

/-- **The value of a filter**: no test throws. -/
theorem filterOption_eq_some_iff :
    filterOption test l = some l' ↔
      (∀ a ∈ l, test a ≠ none) ∧ l' = l.filter fun a => test a = some true := by
  induction l generalizing l' with
  | nil =>
    rw [filterOption]
    constructor
    · intro h
      exact ⟨fun a ha => absurd ha List.not_mem_nil, (Option.some.inj h).symm⟩
    · rintro ⟨-, rfl⟩
      rfl
  | cons a l ih =>
    rw [filterOption, List.forall_mem_cons, List.filter_cons]
    cases htest : test a with
    | none => simp
    | some b =>
      cases b with
      | true =>
        rw [Option.map_eq_some_iff]
        constructor
        · rintro ⟨l'', hl'', rfl⟩
          obtain ⟨hall, rfl⟩ := ih.mp hl''
          exact ⟨⟨Option.some_ne_none _, hall⟩, by simp⟩
        · rintro ⟨⟨-, hall⟩, rfl⟩
          exact ⟨_, ih.mpr ⟨hall, rfl⟩, by simp⟩
      | false =>
        constructor
        · intro hl'
          obtain ⟨hall, rfl⟩ := ih.mp hl'
          exact ⟨⟨Option.some_ne_none _, hall⟩, by simp⟩
        · rintro ⟨⟨-, hall⟩, rfl⟩
          exact ih.mpr ⟨hall, by simp⟩

theorem filterOption_congr {test' : α → Option Bool} (h : ∀ a ∈ l, test a = test' a) :
    filterOption test l = filterOption test' l := by
  induction l with
  | nil => rfl
  | cons a l ih =>
    rw [filterOption, filterOption, h a List.mem_cons_self,
      ih fun a' ha' => h a' (List.mem_cons_of_mem _ ha')]

end Cpp
