import Mathlib.Data.List.Basic

/-!
# The range-based for loop over a set

`for (const auto &a : set) body(a);` holds an iterator. In a node-based set (`std::unordered_set`)
erasing an element invalidates the iterators to it and no others, and the other elements keep
their order. So an iterator is its element, or the end; it is valid as long as the set has the
element.

- `rangeFor`: the loop, up to the first use of an iterator whose element was erased.
- `forEach_of_same`: a body that changes nothing sees every element once.
- `forEach_of_erases`: a body that erases its element is the last one.
- `forEach_returned`: so a loop that returns has erased nothing.
-/

namespace Cpp

/-- How a loop ends: after the last element, or with the use of an iterator whose element was
erased, from where on nothing is defined. -/
inductive LoopEnd (σ : Type) where
  | returned (state : σ)
  | invalidated

section RangeFor

variable {α σ : Type} [DecidableEq α]

/-- `++it`, for an iterator to an element of the set. -/
def advance (elems : List α) (a : α) : Option α := (elems.dropWhile (· ≠ a)).tail.head?

/-- The loop, from the iterator `it` on, with the elements that it visits. -/
def rangeFor (elems : σ → List α) (body : α → σ → σ) :
    Nat → Option α → σ → Option (List α × LoopEnd σ)
  | 0, _, _ => none
  | _ + 1, none, s => some ([], .returned s)
  | fuel + 1, some a, s =>
    -- `*it`
    if a ∈ elems s then
      let s := body a s
      -- `++it`
      if a ∈ elems s then
        (rangeFor elems body fuel (advance (elems s) a) s).map fun r => (a :: r.1, r.2)
      else some ([a], .invalidated)
    else some ([], .invalidated)

/-- The loop from `begin()` on. -/
def forEach (elems : σ → List α) (body : α → σ → σ) (fuel : Nat) (s : σ) :
    Option (List α × LoopEnd σ) :=
  rangeFor elems body fuel (elems s).head? s

theorem advance_append {front back : List α} {a : α} (h : a ∉ front) :
    advance (front ++ a :: back) a = back.head? := by
  have hdrop : (front ++ a :: back).dropWhile (· ≠ a) = a :: back := by
    rw [List.dropWhile_append_of_pos]
    · simp
    · intro b hb
      have hne : b ≠ a := fun heq => h (heq ▸ hb)
      simpa using hne
  rw [advance, hdrop, List.tail_cons]

variable {elems : σ → List α} {body : α → σ → σ} {s : σ}

/-- What comes after elements for which the body changes nothing. The induction is on these
elements. -/
theorem rangeFor_skip {visited : List α} {e : LoopEnd σ} {mid : List α} :
    ∀ {front back : List α} {fuel : Nat}, (elems s).Nodup → elems s = front ++ (mid ++ back) →
      (∀ a ∈ mid, body a s = s) → rangeFor elems body fuel back.head? s = some (visited, e) →
      rangeFor elems body (fuel + mid.length) (mid ++ back).head? s = some (mid ++ visited, e) := by
  induction mid with
  | nil => exact fun _ _ _ h => h
  | cons a mid ih =>
    intro front back fuel hnodup helems hsame h
    have hmem : a ∈ elems s := by simp [helems]
    have hnot : a ∉ front := by
      rw [helems] at hnodup
      exact fun hin => (List.nodup_append.mp hnodup).2.2 a hin a List.mem_cons_self rfl
    have helems' : elems s = (front ++ [a]) ++ (mid ++ back) := by
      rw [helems, List.append_assoc, List.cons_append, List.singleton_append]
    have hrest := ih hnodup helems' (fun b hb => hsame b (List.mem_cons_of_mem _ hb)) h
    rw [List.length_cons, ← Nat.add_assoc, List.cons_append, List.head?_cons, rangeFor, if_pos hmem]
    simp only [hsame a List.mem_cons_self, if_pos hmem]
    rw [helems, List.cons_append, advance_append hnot, hrest]
    rfl

/-- More fuel changes nothing. -/
theorem rangeFor_mono {fuel : Nat} : ∀ {it : Option α} {s : σ} {r : List α × LoopEnd σ} {n : Nat},
    rangeFor elems body fuel it s = some r → fuel ≤ n → rangeFor elems body n it s = some r := by
  induction fuel with
  | zero =>
    intro it s r n h _
    cases h
  | succ fuel ih =>
    intro it s r n h hle
    obtain ⟨n, rfl⟩ : ∃ k, n = k + 1 := ⟨n - 1, by omega⟩
    cases it with
    | none => exact h
    | some a =>
      rw [rangeFor] at h ⊢
      split at h
      · rename_i hmem
        rw [if_pos hmem]
        dsimp only at h ⊢
        split at h
        · rename_i hmem'
          obtain ⟨r', hr', rfl⟩ := Option.map_eq_some_iff.mp h
          rw [if_pos hmem', ih hr' (Nat.le_of_succ_le_succ hle), Option.map_some]
        · rename_i hmem'
          rw [if_neg hmem']
          exact h
      · rename_i hmem
        rw [if_neg hmem]
        exact h

/-- **A body that changes nothing** sees every element once, in order. -/
theorem forEach_of_same (hnodup : (elems s).Nodup) (hsame : ∀ a ∈ elems s, body a s = s)
    {fuel : Nat} (hfuel : (elems s).length < fuel) :
    forEach elems body fuel s = some (elems s, .returned s) := by
  have hend : rangeFor elems body 1 ([] : List α).head? s = some ([], .returned s) := rfl
  have helems : elems s = [] ++ (elems s ++ []) := by rw [List.append_nil, List.nil_append]
  have hloop := rangeFor_skip hnodup helems hsame hend
  rw [List.append_nil] at hloop
  exact rangeFor_mono hloop (by omega)

/-- **A body that erases its element** is the last one: the iterator cannot be moved on. -/
theorem forEach_of_erases (hnodup : (elems s).Nodup) {front back : List α} {a : α}
    (helems : elems s = front ++ a :: back) (hsame : ∀ b ∈ front, body b s = s)
    (herases : a ∉ elems (body a s)) :
    forEach elems body (1 + front.length) s = some (front ++ [a], .invalidated) := by
  have hmem : a ∈ elems s := by simp [helems]
  have hlast : rangeFor elems body 1 (a :: back).head? s = some ([a], .invalidated) := by
    rw [List.head?_cons, rangeFor, if_pos hmem]
    simp only [if_neg herases]
  have helems' : elems s = [] ++ (front ++ a :: back) := by rw [List.nil_append, helems]
  rw [forEach, helems]
  exact rangeFor_skip hnodup helems' hsame hlast

theorem forEach_unique {r r' : List α × LoopEnd σ} {n n' : Nat}
    (h : forEach elems body n s = some r) (h' : forEach elems body n' s = some r') : r = r' := by
  have hmax := rangeFor_mono h (Nat.le_max_left n n')
  have hmax' := rangeFor_mono h' (Nat.le_max_right n n')
  exact Option.some.inj (hmax.symm.trans hmax')

/-- **When the loop returns**, for a body that changes nothing or erases its element: only if it
changes nothing for any element. -/
theorem forEach_returned (hnodup : (elems s).Nodup)
    (hbody : ∀ a ∈ elems s, body a s = s ∨ a ∉ elems (body a s)) {fuel : Nat} {visited : List α}
    {s' : σ} (h : forEach elems body fuel s = some (visited, .returned s')) :
    (∀ a ∈ elems s, body a s = s) ∧ visited = elems s ∧ s' = s := by
  have hsame : ∀ a ∈ elems s, body a s = s := by
    by_contra hsome
    -- the first element for which the body does something
    obtain ⟨front, a, back, helems, hsame, hchanges⟩ : ∃ front a back,
        elems s = front ++ a :: back ∧ (∀ b ∈ front, body b s = s) ∧ body a s ≠ s := by
      classical
      push Not at hsome
      obtain ⟨a, ha, hchanges⟩ := hsome
      have hfind : ((elems s).find? fun b => body b s ≠ s).isSome :=
        List.find?_isSome.mpr ⟨a, ha, by simpa using hchanges⟩
      obtain ⟨b, hb⟩ := Option.isSome_iff_exists.mp hfind
      obtain ⟨hp, front, back, helems, hfront⟩ := List.find?_eq_some_iff_append.mp hb
      exact ⟨front, b, back, helems, fun c hc => by simpa using hfront c hc, by simpa using hp⟩
    have hmem : a ∈ elems s := by simp [helems]
    have hinvalid :=
      forEach_of_erases hnodup helems hsame ((hbody a hmem).resolve_left hchanges)
    cases (Prod.mk.inj (forEach_unique h hinvalid)).2
  refine ⟨hsame, ?_⟩
  have hr := forEach_unique h (forEach_of_same hnodup hsame (Nat.lt_succ_self _))
  exact ⟨(Prod.mk.inj hr).1, LoopEnd.returned.inj (Prod.mk.inj hr).2⟩

end RangeFor

end Cpp
