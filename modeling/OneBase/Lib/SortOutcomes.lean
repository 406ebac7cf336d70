import Mathlib.Data.List.Count
import Mathlib.Data.List.Induction
import Mathlib.Data.List.Perm.Subperm
import OneBase.Lib.LexOrder

/-!
# What `std::sort` may output

The comparison of `std::sort` leaves open the order of elements that it does not tell
apart, so that a list has several outputs. A relation holds of the first elements of
every output if it holds of each two elements that may stand there in this order.

- `mustPrecede`: the elements that stand before `b` in every output with `a` before `b`.
- `exists_outcome`: an output in which no other elements stand before `b`.
- `forall_sorts_iff`: when a relation holds in every output.
-/

namespace Cpp

variable {α : Type}

/-- The comparison does not throw on the list and is a strict weak ordering. -/
def ComparesOn (cmp : α → α → Option Bool) (l : List α) : Prop :=
  ∃ less : α → α → Bool, IsStrictWeakOrder α (fun a b => less a b = true) ∧
    ∀ a ∈ l, ∀ b ∈ l, cmp a b = some (less a b)

/-- A list of at most one element is not compared. -/
def StdSort.KeepsShort (std : StdSort α) : Prop :=
  ∀ cmp l, l.length ≤ 1 → std.sort cmp l = some l

/-- How many elements stand before `b` at least, if `a` does: those that come before it, and
`a` itself. -/
def mustPrecede (cmp : α → α → Option Bool) (l : List α) (a b : α) : Nat :=
  l.countP (fun c => cmp c b = some true) + if cmp a b = some true then 0 else 1

/-- The first elements. -/
def limited (limit : Option Nat) (l : List α) : List α :=
  match limit with
  | none => l
  | some n => l.take n

/-- Whether the position is past the limit. -/
def PastLimit (limit : Option Nat) (pos : Nat) : Prop := ∃ n, limit = some n ∧ n ≤ pos

/-! ## Pairs of the first elements -/

/-- A relation holds of all pairs if it holds of each element and those before it. -/
theorem pairwise_iff_split {R : α → α → Prop} {l : List α} :
    l.Pairwise R ↔ ∀ pre b post, l = pre ++ b :: post → ∀ a ∈ pre, R a b := by
  constructor
  · rintro h pre b post rfl a ha
    exact (List.pairwise_append.mp h).2.2 a ha b List.mem_cons_self
  · intro h
    induction l using List.reverseRecOn with
    | nil => exact .nil
    | append_singleton l b ih =>
      refine List.pairwise_append.mpr ⟨ih ?_, List.pairwise_singleton _ _, ?_⟩
      · rintro pre c post rfl a ha
        exact h pre c (post ++ [b]) (by rw [List.append_assoc]; rfl) a ha
      · intro a ha c hc
        obtain rfl := List.mem_singleton.mp hc
        exact h l c [] rfl a ha

theorem pairwise_limited_iff {R : α → α → Prop} {limit : Option Nat} {l : List α} :
    (limited limit l).Pairwise R ↔
      ∀ pre b post, l = pre ++ b :: post → ¬ PastLimit limit pre.length → ∀ a ∈ pre, R a b := by
  cases limit with
  | none =>
    refine pairwise_iff_split.trans ?_
    simp [PastLimit, limited]
  | some n =>
    refine pairwise_iff_split.trans ?_
    constructor
    · rintro h pre b post rfl hlimit a ha
      have hlt : pre.length < n := by simpa [PastLimit] using hlimit
      refine h pre b (post.take (n - pre.length - 1)) ?_ a ha
      show (pre ++ b :: post).take n = _
      rw [List.take_append, List.take_of_length_le (Nat.le_of_lt hlt)]
      obtain ⟨m, hm⟩ := Nat.exists_eq_add_of_lt hlt
      have hsub : n - pre.length = m + 1 := by omega
      rw [hsub, List.take_succ_cons, Nat.add_sub_cancel]
    · intro h pre b post heq a ha
      have hle : pre.length < n := by
        have hlen := congrArg List.length heq
        rw [limited, List.length_take, List.length_append, List.length_cons] at hlen
        omega
      refine h pre b (post ++ l.drop n) ?_ (by simpa [PastLimit] using hle) a ha
      rw [← List.cons_append, ← List.append_assoc, ← heq]
      exact (List.take_append_drop n l).symm

/-! ## One output -/

section

variable {cmp : α → α → Option Bool} {l : List α}

/-- The condition does not depend on the order of the list. -/
theorem ComparesOn.perm {l' : List α} (h : ComparesOn cmp l) (hperm : l'.Perm l) :
    ComparesOn cmp l' := by
  obtain ⟨less, hweak, hcmp⟩ := h
  exact ⟨less, hweak, fun a ha b hb => hcmp a (hperm.mem_iff.mp ha) b (hperm.mem_iff.mp hb)⟩

theorem mustPrecede_perm {l' : List α} (hperm : l'.Perm l) (a b : α) :
    mustPrecede cmp l' a b = mustPrecede cmp l a b := by
  rw [mustPrecede, mustPrecede, hperm.countP_eq]

/-- **In a sorted list** these elements do stand before `b`. -/
theorem mustPrecede_le {pre post : List α} {a b : α}
    (hcompares : ComparesOn cmp (pre ++ b :: post))
    (hsorted : (pre ++ b :: post).Pairwise fun c d => cmp d c = some false) (ha : a ∈ pre) :
    mustPrecede cmp (pre ++ b :: post) a b ≤ pre.length := by
  obtain ⟨less, hweak, hcmp⟩ := hcompares
  have hb : b ∈ pre ++ b :: post := by simp
  have hself : ¬ cmp b b = some true := by
    rw [hcmp b hb b hb]
    exact fun h => hweak.irrefl b (Option.some.inj h)
  have hpost : post.countP (fun c => cmp c b = some true) = 0 := by
    rw [List.countP_eq_zero]
    intro c hc
    have hfalse := (List.pairwise_cons.mp (List.pairwise_append.mp hsorted).2.1).1 c hc
    simp [hfalse]
  rw [mustPrecede, List.countP_append, List.countP_cons_of_neg (by simpa using hself), hpost,
    Nat.add_zero]
  split
  · exact List.countP_le_length
  · rename_i hnot
    exact List.countP_lt_length_iff.mpr ⟨a, ha, by simpa using hnot⟩

/-- **No other elements need stand before `b`**: the list has an output with exactly these. -/
theorem exists_outcome (hcompares : ComparesOn cmp l) {a b : α} (hab : [a, b].Subperm l)
    (hnot : cmp b a ≠ some true) :
    ∃ pre post, (pre ++ b :: post).Perm l ∧
      (pre ++ b :: post).Pairwise (fun c d => cmp d c = some false) ∧ a ∈ pre ∧
      pre.length = mustPrecede cmp l a b := by
  obtain ⟨less, hweak, hcmp⟩ := hcompares
  obtain ⟨rest, hrest⟩ : ∃ rest, (a :: b :: rest).Perm l := by
    obtain ⟨l', hl', hsub⟩ := hab
    obtain ⟨rest, hrest⟩ := hsub.exists_perm_append
    exact ⟨rest, (hl'.symm.append_right rest).trans hrest.symm⟩
  have hmem : ∀ {c}, c ∈ a :: b :: rest → c ∈ l := fun h => hrest.mem_iff.mp h
  have ha : a ∈ l := hmem List.mem_cons_self
  have hb : b ∈ l := hmem (List.mem_cons_of_mem _ List.mem_cons_self)
  have hba : ¬ less b a = true := fun h => hnot ((hcmp b hb a ha).trans (congrArg some h))
  have hsort : ∀ l' : List α,
      ∃ out : List α, out.Perm l' ∧ out.Pairwise fun c d => less d c = false := by
    intro l'
    obtain ⟨out, -, hperm, hsorted⟩ := (StdSort.merge α).sorts hweak
      fun c (_ : c ∈ l') d (_ : d ∈ l') => (rfl : some (less c d) = some (less c d))
    exact ⟨out, hperm, hsorted⟩
  -- before `b` stand `a` and what comes before `b`
  obtain ⟨pre, hpre, hpreSorted⟩ := hsort (a :: rest.filter fun c => less c b)
  obtain ⟨post, hpost, hpostSorted⟩ := hsort (rest.filter fun c => !less c b)
  have hall : (pre ++ b :: post).Perm l := by
    refine List.Perm.trans ?_ hrest
    refine (hpre.append (hpost.cons b)).trans ?_
    refine List.perm_middle.trans ((List.Perm.swap _ _ _).trans ?_)
    exact ((List.filter_append_perm _ rest).cons b).cons a
  have hpreNot : ∀ c ∈ pre, ¬ less b c = true := by
    intro c hc hbc
    rcases List.mem_cons.mp (hpre.mem_iff.mp hc) with rfl | hc
    · exact hba hbc
    · exact hweak.irrefl _ (hweak.trans _ _ _ (List.mem_filter.mp hc).2 hbc)
  have hpostNot : ∀ d ∈ b :: post, ¬ less d b = true := by
    intro d hd
    rcases List.mem_cons.mp hd with rfl | hd
    · exact hweak.irrefl d
    · simpa using (List.mem_filter.mp (hpost.mem_iff.mp hd)).2
  have hcross : ∀ c ∈ pre, ∀ d ∈ b :: post, less d c = false := by
    intro c hc d hd
    rw [← Bool.not_eq_true]
    intro hdc
    by_cases hcb : less c b = true
    · exact hpostNot d hd (hweak.trans _ _ _ hdc hcb)
    · by_cases hbd : less b d = true
      · exact hpreNot c hc (hweak.trans _ _ _ hbd hdc)
      · exact (hweak.incomp_trans _ _ _ ⟨hpostNot d hd, hbd⟩ ⟨hpreNot c hc, hcb⟩).1 hdc
  have hlessSorted : (pre ++ b :: post).Pairwise fun c d => less d c = false := by
    refine List.pairwise_append.mpr ⟨hpreSorted, ?_, hcross⟩
    refine List.pairwise_cons.mpr ⟨fun d hd => ?_, hpostSorted⟩
    rw [← Bool.not_eq_true]
    exact hpostNot d (List.mem_cons_of_mem _ hd)
  refine ⟨pre, post, hall, ?_, hpre.mem_iff.mpr List.mem_cons_self, ?_⟩
  · refine hlessSorted.imp_of_mem fun {c d} hc hd h => ?_
    rw [hcmp d (hall.mem_iff.mp hd) c (hall.mem_iff.mp hc), h]
  · have hrestCount : rest.countP (fun c => cmp c b = some true) =
        (rest.filter fun c => less c b).length := by
      rw [List.countP_eq_length_filter]
      refine congrArg _ (List.filter_congr fun c hc => ?_)
      rw [hcmp c (hmem (List.mem_cons_of_mem _ (List.mem_cons_of_mem _ hc))) b hb]
      simp
    have hself : ¬ cmp b b = some true := by
      rw [hcmp b hb b hb]
      exact fun h => hweak.irrefl b (Option.some.inj h)
    rw [hpre.length_eq, List.length_cons, ← mustPrecede_perm hrest, mustPrecede, List.countP_cons,
      List.countP_cons, hrestCount]
    by_cases htrue : cmp a b = some true
    · simp [htrue, hself]
    · simp [htrue, hself]

/-! ## All outputs -/

open Classical in
/-- **A sort that outputs a given list** whenever it may, and throws if the comparison is no
strict weak ordering. -/
noncomputable def StdSort.choosing (out : List α) : StdSort α where
  sort := fun cmp l =>
    if l.length ≤ 1 then some l
    else if ComparesOn cmp l then
      if out.Perm l ∧ out.Pairwise (fun a b => cmp b a = some false) then some out
      else (StdSort.merge α).sort cmp l
    else none
  sorts := by
    intro cmp less l hweak hcmp
    by_cases hshort : l.length ≤ 1
    · refine ⟨l, if_pos hshort, .refl l, ?_⟩
      match l, hshort with
      | [], _ => exact .nil
      | [a], _ => exact List.pairwise_singleton _ _
    · rw [if_neg hshort, if_pos ⟨less, hweak, hcmp⟩]
      split
      · rename_i hout
        refine ⟨out, rfl, hout.1, hout.2.imp_of_mem fun {a b} ha hb h => ?_⟩
        rw [hcmp b (hout.1.mem_iff.mp hb) a (hout.1.mem_iff.mp ha)] at h
        exact Option.some.inj h
      · exact (StdSort.merge α).sorts hweak hcmp

theorem StdSort.keepsShort_choosing (out : List α) : (StdSort.choosing out).KeepsShort :=
  fun _ _ h => if_pos h

/-- **When a relation holds of the first elements of every output**: the list has at most one
element, or the comparison is a strict weak ordering and the relation holds of each two
elements that may stand there in this order. -/
theorem forall_sorts_iff {R : α → α → Prop} {limit : Option Nat} :
    (∀ std : StdSort α, std.KeepsShort →
        ∃ out, std.sort cmp l = some out ∧ (limited limit out).Pairwise R) ↔
      l.length ≤ 1 ∨ ComparesOn cmp l ∧ ∀ a b, [a, b].Subperm l → cmp b a ≠ some true →
        ¬ PastLimit limit (mustPrecede cmp l a b) → R a b := by
  constructor
  · intro h
    by_cases hshort : l.length ≤ 1
    · exact .inl hshort
    · have hcompares : ComparesOn cmp l := by
        by_contra hnot
        obtain ⟨out, hout, -⟩ := h (.choosing []) (StdSort.keepsShort_choosing [])
        have hnone : (StdSort.choosing []).sort cmp l = none := by
          show (if l.length ≤ 1 then some l else _) = none
          rw [if_neg hshort, if_neg hnot]
        rw [hnone] at hout
        cases hout
      refine .inr ⟨hcompares, fun a b hab hnot hlimit => ?_⟩
      obtain ⟨pre, post, hperm, hsorted, ha, hlen⟩ := exists_outcome hcompares hab hnot
      obtain ⟨out, hout, hR⟩ :=
        h (.choosing (pre ++ b :: post)) (StdSort.keepsShort_choosing _)
      have hchosen : (StdSort.choosing (pre ++ b :: post)).sort cmp l =
          some (pre ++ b :: post) := by
        show (if l.length ≤ 1 then some l else _) = _
        rw [if_neg hshort, if_pos hcompares, if_pos ⟨hperm, hsorted⟩]
      obtain rfl := Option.some.inj (hchosen.symm.trans hout)
      rw [← hlen] at hlimit
      exact pairwise_limited_iff.mp hR pre b post rfl hlimit a ha
  · rintro (hshort | ⟨hcompares, hR⟩) std hkeeps
    · refine ⟨l, hkeeps cmp l hshort, pairwise_limited_iff.mpr ?_⟩
      rintro pre b post rfl _ a ha
      have hpos := List.length_pos_of_mem ha
      rw [List.length_append, List.length_cons] at hshort
      omega
    · obtain ⟨less, hweak, hcmp⟩ := hcompares
      obtain ⟨out, hout, hperm, hsorted⟩ := std.sorts hweak hcmp
      refine ⟨out, hout, pairwise_limited_iff.mpr ?_⟩
      rintro pre b post rfl hlimit a ha
      have hsorted' : (pre ++ b :: post).Pairwise fun c d => cmp d c = some false := by
        refine hsorted.imp_of_mem fun {c d} hc hd h => ?_
        rw [hcmp d (hperm.mem_iff.mp hd) c (hperm.mem_iff.mp hc), h]
      have hcompares' := ComparesOn.perm ⟨less, hweak, hcmp⟩ hperm
      have hsub : [a, b].Subperm l := by
        refine List.Subperm.trans (List.Sublist.subperm ?_) hperm.subperm
        exact (List.singleton_sublist.mpr ha).append
          (List.singleton_sublist.mpr List.mem_cons_self)
      have hfalse := (List.pairwise_append.mp hsorted').2.2 a ha b List.mem_cons_self
      refine hR a b hsub (by rw [hfalse]; simp) fun hpast => hlimit ?_
      obtain ⟨n, hn, hle⟩ := hpast
      rw [← mustPrecede_perm hperm] at hle
      exact ⟨n, hn, Nat.le_trans hle (mustPrecede_le hcompares' hsorted' ha)⟩

end

end Cpp
