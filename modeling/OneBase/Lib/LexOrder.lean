import Mathlib.Order.Defs.LinearOrder
import Mathlib.Order.Defs.Unbundled
import Mathlib.Order.Lattice
import Mathlib.Data.List.Basic

/-!
# Comparison by several keys, and `std::sort`

A list of keys, each ascending or descending, compares two elements by the first key
that tells them apart. `std::sort` is any function that sorts by a comparison that is a
strict weak ordering.

- `lexLess_iff`: one element comes before another under the first of the keys, or is
  equal under it and comes before under the others.
- `isStrictWeakOrder_lexLess`: the comparison is a strict weak ordering.
- `lexLess_eq_false_iff`: one element is not before another.
-/

namespace Cpp

section

variable {α κ : Type} [LinearOrder κ]

/-- The comparison by keys; the flag says whether a key is ascending. -/
def lexLess : List (Bool × (α → κ)) → α → α → Bool
  | [], _, _ => false
  | (ascending, key) :: keys, a, b =>
    if key a < key b then ascending
    else if key b < key a then !ascending
    else lexLess keys a b

/-- One key comes before another in the direction of the flag. -/
def Before (ascending : Bool) (x y : κ) : Prop := if ascending then x < y else y < x

/-- **Not after**: an element comes before another under the first key that tells them
apart, or no key does. -/
def NotAfter : List (Bool × (α → κ)) → α → α → Prop
  | [], _, _ => True
  | (ascending, key) :: keys, a, b =>
    Before ascending (key a) (key b) ∨ key a = key b ∧ NotAfter keys a b

theorem Before.irrefl {ascending : Bool} {x : κ} : ¬ Before ascending x x := by
  unfold Before
  split
  · exact lt_irrefl x
  · exact lt_irrefl x

theorem Before.trans {ascending : Bool} {x y z : κ} (hxy : Before ascending x y)
    (hyz : Before ascending y z) : Before ascending x z := by
  cases ascending with
  | true => exact lt_trans hxy hyz
  | false => exact lt_trans hyz hxy

/-- Two keys are equal, or one comes before the other. -/
theorem Before.cases (ascending : Bool) (x y : κ) :
    Before ascending x y ∨ x = y ∨ Before ascending y x := by
  unfold Before
  split
  · exact lt_trichotomy x y
  · exact (lt_trichotomy y x).imp_right fun h => h.imp_left Eq.symm

/-- **The comparison** under the first key and the others. -/
theorem lexLess_iff {ascending : Bool} {key : α → κ} {keys : List (Bool × (α → κ))} {a b : α} :
    lexLess ((ascending, key) :: keys) a b = true ↔
      Before ascending (key a) (key b) ∨ key a = key b ∧ lexLess keys a b = true := by
  unfold Before
  rw [lexLess]
  rcases lt_trichotomy (key a) (key b) with hlt | heq | hgt
  · cases ascending <;> simp [hlt, ne_of_lt hlt, not_lt_of_gt hlt]
  · cases ascending <;> simp [heq]
  · cases ascending <;> simp [hgt, ne_of_gt hgt, not_lt_of_gt hgt]

theorem lexLess_irrefl (keys : List (Bool × (α → κ))) (a : α) : ¬ lexLess keys a a = true := by
  induction keys with
  | nil => exact Bool.false_ne_true
  | cons item keys ih =>
    rw [lexLess_iff]
    rintro (hbefore | ⟨-, hless⟩)
    · exact Before.irrefl hbefore
    · exact ih hless

theorem lexLess_trans (keys : List (Bool × (α → κ))) {a b c : α} (hab : lexLess keys a b = true)
    (hbc : lexLess keys b c = true) : lexLess keys a c = true := by
  induction keys with
  | nil => exact hab
  | cons item keys ih =>
    rw [lexLess_iff] at *
    rcases hab with hab | ⟨hab, hless⟩
    · rcases hbc with hbc | ⟨hbc, -⟩
      · exact .inl (hab.trans hbc)
      · exact .inl (hbc ▸ hab)
    · rcases hbc with hbc | ⟨hbc, hless'⟩
      · exact .inl (hab ▸ hbc)
      · exact .inr ⟨hab.trans hbc, ih hless hless'⟩

/-- **Two elements are not told apart** exactly if all their keys are equal. -/
theorem not_lexLess_iff (keys : List (Bool × (α → κ))) (a b : α) :
    (¬ lexLess keys a b = true ∧ ¬ lexLess keys b a = true) ↔
      ∀ item ∈ keys, item.2 a = item.2 b := by
  induction keys with
  | nil => simp [lexLess]
  | cons item keys ih =>
    rw [lexLess_iff, lexLess_iff, List.forall_mem_cons, ← ih]
    constructor
    · rintro ⟨hab, hba⟩
      have heq : item.2 a = item.2 b := by
        rcases Before.cases item.1 (item.2 a) (item.2 b) with hlt | heq | hgt
        · exact absurd (.inl hlt) hab
        · exact heq
        · exact absurd (.inl hgt) hba
      exact ⟨heq, fun h => hab (.inr ⟨heq, h⟩), fun h => hba (.inr ⟨heq.symm, h⟩)⟩
    · rintro ⟨heq, hab, hba⟩
      rw [heq]
      refine ⟨?_, ?_⟩
      · rintro (hbefore | ⟨-, h⟩)
        · exact Before.irrefl hbefore
        · exact hab h
      · rintro (hbefore | ⟨-, h⟩)
        · exact Before.irrefl hbefore
        · exact hba h

/-- The same order under keys of what the elements are mapped to. -/
theorem NotAfter.map {β : Type} {f : α → β} {a b : α} {keys : List (Bool × (α → κ))}
    {keys' : List (Bool × (β → κ))}
    (hkeys : List.Forall₂ (fun key key' => key.1 = key'.1 ∧ key.2 a = key'.2 (f a) ∧
      key.2 b = key'.2 (f b)) keys keys') (h : NotAfter keys a b) : NotAfter keys' (f a) (f b) := by
  induction hkeys with
  | nil => trivial
  | cons hkey _ ih =>
    obtain ⟨hascending, ha, hb⟩ := hkey
    simp only [NotAfter] at h ⊢
    rw [← hascending, ← ha, ← hb]
    exact h.imp_right fun h => ⟨h.1, ih h.2⟩

/-- **The comparison is a strict weak ordering**, for any keys and directions. -/
theorem isStrictWeakOrder_lexLess (keys : List (Bool × (α → κ))) :
    IsStrictWeakOrder α fun a b => lexLess keys a b = true where
  irrefl := lexLess_irrefl keys
  trans := fun _ _ _ => lexLess_trans keys
  incomp_trans := fun a b c hab hbc => by
    rw [not_lexLess_iff] at *
    exact fun item hitem => (hab item hitem).trans (hbc item hitem)

/-- **One element is not before another** if the other is not after it. -/
theorem lexLess_eq_false_iff (keys : List (Bool × (α → κ))) (a b : α) :
    lexLess keys b a = false ↔ NotAfter keys a b := by
  induction keys with
  | nil => simp [lexLess, NotAfter]
  | cons item keys ih =>
    rw [← Bool.not_eq_true, lexLess_iff]
    show _ ↔ Before item.1 (item.2 a) (item.2 b) ∨ item.2 a = item.2 b ∧ NotAfter keys a b
    rw [← ih, ← Bool.not_eq_true]
    rcases Before.cases item.1 (item.2 a) (item.2 b) with hlt | heq | hgt
    · have hne : ¬ Before item.1 (item.2 b) (item.2 a) := fun h => Before.irrefl (hlt.trans h)
      have hne' : item.2 b ≠ item.2 a := fun h => Before.irrefl (h ▸ hlt)
      simp [hlt, hne, hne']
    · simp [heq, Before.irrefl]
    · have hne : ¬ Before item.1 (item.2 a) (item.2 b) := fun h => Before.irrefl (hgt.trans h)
      have hne' : item.2 a ≠ item.2 b := fun h => Before.irrefl (h ▸ hgt)
      simp [hgt, hne, hne']

end

/-- **`std::sort`**, by a comparison that may throw: it sorts a list on which the
comparison does not throw and is a strict weak ordering. -/
structure StdSort (α : Type) where
  sort : (α → α → Option Bool) → List α → Option (List α)
  sorts : ∀ {cmp : α → α → Option Bool} {less : α → α → Bool} {l : List α},
    IsStrictWeakOrder α (fun a b => less a b = true) →
    (∀ a ∈ l, ∀ b ∈ l, cmp a b = some (less a b)) →
    ∃ out, sort cmp l = some out ∧ out.Perm l ∧ out.Pairwise fun a b => less b a = false

/-- A merge sort, which throws if a comparison of two elements of the list does. -/
def StdSort.merge (α : Type) : StdSort α where
  sort := fun cmp l =>
    if (l.all fun a => l.all fun b => (cmp a b).isSome) then
      some ((l.attach.mergeSort fun a b => cmp b.1 a.1 != some true).map Subtype.val)
    else none
  sorts := by
    intro cmp less l hweak hcmp
    have hall : (l.all fun a => l.all fun b => (cmp a b).isSome) = true := by
      simp only [List.all_eq_true]
      intro a ha b hb
      rw [hcmp a ha b hb]
      rfl
    have hle : ∀ a b : { a // a ∈ l },
        (cmp b.1 a.1 != some true) = !less b.1 a.1 := by
      intro a b
      rw [hcmp b.1 b.2 a.1 a.2]
      cases less b.1 a.1 <;> rfl
    refine ⟨_, if_pos hall, ?_, ?_⟩
    · refine ((List.mergeSort_perm _ _).map Subtype.val).trans ?_
      rw [List.attach_map_subtype_val]
    · simp only [hle]
      have hsorted := @List.pairwise_mergeSort _ (fun a b : { a // a ∈ l } => !less b.1 a.1)
        ?_ ?_ l.attach
      · exact List.pairwise_map.mpr (hsorted.imp fun h => by simpa using h)
      · -- not being before is transitive
        intro a b c hab hbc
        simp only [Bool.not_eq_true', ← Bool.not_eq_true] at hab hbc ⊢
        intro hca
        have hab' : ¬ less a.1 b.1 = true := fun h => hbc (hweak.trans _ _ _ hca h)
        have hbc' : ¬ less b.1 c.1 = true := fun h => hab (hweak.trans _ _ _ h hca)
        exact (hweak.incomp_trans _ _ _ ⟨hab', hab⟩ ⟨hbc', hbc⟩).2 hca
      · intro a b
        cases hab : less b.1 a.1 with
        | false => rfl
        | true =>
          cases hba : less a.1 b.1 with
          | false => rfl
          | true => exact absurd (hweak.trans _ _ _ hab hba) (hweak.irrefl _)

end Cpp
