import OneBase.Execution.Joins

/-!
# Executors that materialize their output (`aggregation_executor.cpp`, `sort_executor.cpp`)

Both executors read all rows of their child in `Init` and keep the tuples to output in
a vector, through which `Next` goes with a cursor.

- `drain_eq`: the loop over the child is a fold over its rows.
- `Materialized.yields`: the executor yields the tuples that are made of that fold.
-/

namespace OneBase

namespace Executor

variable {σ A : Type}

/-- The loop `while (child_executor_->Next(&child_tuple, &child_rid))` with its body. -/
def drain (child : Executor σ) (body : A → Tuple → Option A) : Nat → σ → A → Option (A × σ)
  | 0, _, _ => none
  | fuel + 1, st, acc =>
    match child.next st with
    | none => none
    | some (none, st) => some (acc, st)
    | some (some tuple, st) => (body acc tuple).bind (drain child body fuel st)

/-- **The loop is a fold** over the rows of the child. -/
theorem drain_eq {child : Executor σ} {body : A → Tuple → Option A} {rows : List Tuple} :
    ∀ {fuel : Nat} {st : σ} {acc : A}, child.Produces st rows → rows.length < fuel →
      (child.drain body fuel st acc).map Prod.fst = rows.foldlM body acc := by
  induction rows with
  | nil =>
    intro fuel st acc hproduces hfuel
    obtain ⟨fuel, rfl⟩ := Nat.exists_eq_succ_of_ne_zero (Nat.ne_of_gt hfuel)
    cases hproduces with
    | done hnext =>
      rw [drain, hnext]
      rfl
  | cons tuple rows ih =>
    intro fuel st acc hproduces hfuel
    obtain ⟨fuel, rfl⟩ := Nat.exists_eq_succ_of_ne_zero (Nat.ne_of_gt (Nat.zero_lt_of_lt hfuel))
    cases hproduces with
    | row hnext hrest =>
      rw [drain, hnext, List.foldlM_cons]
      show ((body acc tuple).bind (drain child body fuel _)).map Prod.fst = _
      cases body acc tuple with
      | none => rfl
      | some acc' => exact ih hrest (Nat.lt_of_succ_lt_succ hfuel)

/-- An executor yields one list of rows. -/
theorem Produces.unique {e : Executor σ} {st : σ} {rows rows' : List Tuple}
    (h : e.Produces st rows) (h' : e.Produces st rows') : rows = rows' := by
  induction h generalizing rows' with
  | done hnext =>
    cases h' with
    | done => rfl
    | row hnext' =>
      rw [hnext] at hnext'
      cases hnext'
  | row hnext _ ih =>
    cases h' with
    | done hnext' =>
      rw [hnext] at hnext'
      cases hnext'
    | row hnext' hrest =>
      rw [hnext] at hnext'
      cases hnext'
      rw [ih hrest]

end Executor

/-- The members of such an executor: its child, the tuples and the cursor. -/
structure Materialized (σ : Type) where
  child : σ
  tuples : List Tuple := []
  cursor : Nat := 0

namespace Materialized

variable {σ A : Type} (child : Executor σ) (body : A → Tuple → Option A) (start : A)
  (finish : A → Option (List Tuple))

/-- `Init`: the loop over the child, and the tuples that are made of its result. -/
def init (fuel : Nat) (st : Materialized σ) : Option (Materialized σ) :=
  (child.init st.child).bind fun l =>
    (child.drain body fuel l start).bind fun (acc, l) =>
      (finish acc).map fun tuples => { child := l, tuples, cursor := 0 }

/-- `Next`. -/
def next (st : Materialized σ) : Option (Option Tuple × Materialized σ) :=
  match st.tuples[st.cursor]? with
  | none => some (none, st)
  | some tuple => some (some tuple, { st with cursor := st.cursor + 1 })

/-- The executor; the loop of `Init` gets the fuel. -/
def executor (fuel : Nat) (outputSchema : Schema) : Executor (Materialized σ) where
  outputSchema := outputSchema
  init := init child body start finish fuel
  next := next

variable {child body start finish}

/-- `Next` returns the tuples from the cursor on. -/
theorem produces (fuel : Nat) (outputSchema : Schema) (st : Materialized σ) :
    (executor child body start finish fuel outputSchema).Produces st
      (st.tuples.drop st.cursor) := by
  refine Executor.produces_of (fun st rows => rows = st.tuples.drop st.cursor) ?_ rfl
  rintro st _ rfl
  cases hget : st.tuples[st.cursor]? with
  | none =>
    have hnil : st.tuples.drop st.cursor = [] :=
      List.drop_eq_nil_of_le (List.getElem?_eq_none_iff.mp hget)
    refine ⟨st, ?_, fun tuple rest h => ?_⟩
    · show next st = _
      rw [next, hget, hnil]
      rfl
    · rw [hnil] at h
      cases h
  | some tuple =>
    obtain ⟨hlt, htuple⟩ := List.getElem?_eq_some_iff.mp hget
    refine ⟨{ st with cursor := st.cursor + 1 }, ?_, fun tuple' rest h => ?_⟩
    · show next st = _
      rw [next, hget, List.head?_drop, hget]
    · rw [List.drop_eq_getElem_cons hlt] at h
      exact (List.cons.inj h).2.symm

/-- What `Init` does: the cursor stands before the tuples that are made of the fold over
the rows of the child. -/
theorem init_eq {rows : List Tuple} (hchild : child.Yields rows) {fuel : Nat}
    (hfuel : rows.length < fuel) (st : Materialized σ) :
    ∃ l, init child body start finish fuel st =
      ((rows.foldlM body start).bind finish).map fun tuples =>
        { child := l, tuples, cursor := 0 } := by
  obtain ⟨l, hl, hproduces⟩ := hchild st.child
  have hdrain := @Executor.drain_eq _ _ _ body _ _ _ start hproduces hfuel
  cases hd : child.drain body fuel l start with
  | none =>
    rw [hd] at hdrain
    exact ⟨l, by simp [init, hl, hd, ← hdrain]⟩
  | some result =>
    obtain ⟨acc, l'⟩ := result
    rw [hd] at hdrain
    exact ⟨l', by simp [init, hl, hd, ← hdrain]⟩

/-- **The executor yields** the tuples that are made of the fold over the rows of its
child. -/
theorem yields {rows out : List Tuple} (hchild : child.Yields rows) {fuel : Nat}
    (hfuel : rows.length < fuel) (outputSchema : Schema)
    (hout : (rows.foldlM body start).bind finish = some out) :
    (executor child body start finish fuel outputSchema).Yields out := by
  intro st
  obtain ⟨l, heq⟩ := init_eq hchild hfuel st
  rw [hout] at heq
  exact ⟨_, heq, produces fuel outputSchema _⟩

/-- The executor yields nothing else. -/
theorem eq_of_yields {rows out : List Tuple} (hchild : child.Yields rows) {fuel : Nat}
    (hfuel : rows.length < fuel) {outputSchema : Schema} (st : Materialized σ)
    (hout : (executor child body start finish fuel outputSchema).Yields out) :
    (rows.foldlM body start).bind finish = some out := by
  obtain ⟨st', hst', hproduces⟩ := hout st
  obtain ⟨l, heq⟩ := @init_eq _ _ _ body start finish _ hchild _ hfuel st
  change init child body start finish fuel st = some st' at hst'
  rw [heq] at hst'
  obtain ⟨tuples, htuples, rfl⟩ := Option.map_eq_some_iff.mp hst'
  obtain rfl : out = tuples := hproduces.unique (produces fuel outputSchema _)
  exact htuples

end Materialized

end OneBase
