import OneBase.Catalog.Consistency
import OneBase.Execution.Expressions

/-!
# Join executors (`nested_loop_join_executor.cpp`, `hash_join_executor.cpp`)

Both joins pull rows from two child executors. The nested loop join restarts its
right child for every left row; the hash join first puts the left rows into buckets
by the text of their key and then looks the right rows up.

- `Executor.Yields`: the rows that an executor returns whenever it is initialised.
- `NestedLoopJoin.yields`: the pairs that satisfy the predicate, by left rows.
- `HashJoin.yields`: the pairs whose keys have the same text, by right rows.
-/

namespace OneBase

/-- A child executor: its state is initialised, and then gives a row or the end. -/
structure Executor (σ : Type) where
  outputSchema : Schema
  init : σ → Option σ
  next : σ → Option (Option Tuple × σ)

namespace Executor

variable {σ : Type}

/-- Calls of `Next` return these rows and then the end. -/
inductive Produces (e : Executor σ) : σ → List Tuple → Prop where
  | done {st st' : σ} : e.next st = some (none, st') → Produces e st []
  | row {st st' : σ} {tuple : Tuple} {rows : List Tuple} :
      e.next st = some (some tuple, st') → Produces e st' rows → Produces e st (tuple :: rows)

/-- **The executor yields the same rows each time it is initialised.** -/
def Yields (e : Executor σ) (rows : List Tuple) : Prop :=
  ∀ st, ∃ st', e.init st = some st' ∧ e.Produces st' rows

/-- A relation between states and the rows to come, of which each call returns the
first. -/
theorem produces_of {e : Executor σ} (Pending : σ → List Tuple → Prop)
    (hnext : ∀ {st rows}, Pending st rows → ∃ st', e.next st = some (rows.head?, st') ∧
      ∀ tuple rest, rows = tuple :: rest → Pending st' rest) :
    ∀ {rows : List Tuple} {st : σ}, Pending st rows → e.Produces st rows := by
  intro rows
  induction rows with
  | nil =>
    intro st hpending
    obtain ⟨st', heq, -⟩ := hnext hpending
    exact .done heq
  | cons tuple rows ih =>
    intro st hpending
    obtain ⟨st', heq, hrest⟩ := hnext hpending
    exact .row heq (ih (hrest tuple rows rfl))

end Executor

/-- The executor that returns the rows of a list. -/
def listExecutor (outputSchema : Schema) (rows : List Tuple) : Executor (List Tuple) where
  outputSchema := outputSchema
  init := fun _ => some rows
  next := fun
    | [] => some (none, [])
    | tuple :: rest => some (some tuple, rest)

theorem listExecutor_yields (outputSchema : Schema) (rows : List Tuple) :
    (listExecutor outputSchema rows).Yields rows := by
  intro st
  refine ⟨rows, rfl, ?_⟩
  refine Executor.produces_of (fun st rows => st = rows) ?_ rfl
  rintro st _ rfl
  cases st with
  | nil => exact ⟨[], rfl, fun _ _ h => absurd h (List.cons_ne_nil _ _).symm⟩
  | cons tuple rest => exact ⟨rest, rfl, fun _ _ h => (List.cons.inj h).2⟩

/-- The tuple of the values of both sides (nested_loop_join_executor.cpp:40–50). -/
def joinRow (leftSchema rightSchema : Schema) (leftTuple rightTuple : Tuple) : Option Tuple :=
  match leftTuple.getValues leftSchema, rightTuple.getValues rightSchema with
  | some leftValues, some rightValues => Tuple.ofValues (leftValues ++ rightValues)
  | _, _ => none

/-- Whether a pair satisfies the predicate; no predicate is satisfied by all. -/
def joinSelects (predicate : Option Expr) (leftSchema rightSchema : Schema)
    (leftTuple rightTuple : Tuple) : Option Bool :=
  match predicate with
  | none => some true
  | some predicate =>
    match predicate.evaluateJoin leftTuple leftSchema rightTuple rightSchema with
    | none => none
    | some result => if result.isNull then some false else result.getAsBoolean

/-! ## The nested loop join -/

/-- The members of `NestedLoopJoinExecutor`. -/
structure NestedLoopJoin (σL σR : Type) where
  left : σL
  right : σR
  leftTuple : Tuple := {}
  hasLeftTuple : Bool := false

namespace NestedLoopJoin

variable {σL σR : Type} (left : Executor σL) (right : Executor σR) (predicate : Option Expr)

/-- Model of `Init`. -/
def init (st : NestedLoopJoin σL σR) : Option (NestedLoopJoin σL σR) :=
  match left.init st.left, right.init st.right with
  | some l, some r => some { st with left := l, right := r, hasLeftTuple := false }
  | _, _ => none

/-- Get a left row if there is none, and restart the right child for it; false is the
end of the left rows. -/
def fetchLeft (st : NestedLoopJoin σL σR) : Option (Bool × NestedLoopJoin σL σR) :=
  if st.hasLeftTuple then some (true, st)
  else
    match left.next st.left with
    | none => none
    | some (none, l) => some (false, { st with left := l })
    | some (some tuple, l) =>
      (right.init st.right).map fun r =>
        (true, { left := l, right := r, leftTuple := tuple, hasLeftTuple := true })

/-- Get a right row for the left row: return the pair, or go on with the loop. -/
def scanRight (loop : NestedLoopJoin σL σR → Option (Option Tuple × NestedLoopJoin σL σR))
    (st : NestedLoopJoin σL σR) : Option (Option Tuple × NestedLoopJoin σL σR) :=
  match right.next st.right with
  | none => none
  | some (none, r) => loop { st with right := r, hasLeftTuple := false }
  | some (some rightTuple, r) =>
    match joinSelects predicate left.outputSchema right.outputSchema st.leftTuple rightTuple with
    | none => none
    | some true =>
      (joinRow left.outputSchema right.outputSchema st.leftTuple rightTuple).map fun tuple =>
        (some tuple, { st with right := r })
    | some false => loop { st with right := r }

/-- The loop of `Next`. -/
def next : Nat → NestedLoopJoin σL σR → Option (Option Tuple × NestedLoopJoin σL σR)
  | 0, _ => none
  | fuel + 1, st =>
    match fetchLeft left right st with
    | none => none
    | some (false, st) => some (none, st)
    | some (true, st) => scanRight left right predicate (next fuel) st

/-- The executor; the loop of `Next` gets the fuel. -/
def executor (fuel : Nat) (outputSchema : Schema) : Executor (NestedLoopJoin σL σR) where
  outputSchema := outputSchema
  init := init left right
  next := next left right predicate fuel

end NestedLoopJoin

/-! ## The hash join -/

/-- The members of `HashJoinExecutor`. The bucket is what `current_bucket_` points at:
the table does not change after `Init`. -/
structure HashJoin (σL σR : Type) where
  left : σL
  right : σR
  hashTable : UnorderedMap (List UInt8) (List Tuple) := ∅
  rightTuple : Tuple := {}
  currentBucket : Option (List Tuple) := none
  bucketCursor : Nat := 0

namespace HashJoin

variable {σL σR : Type} (left : Executor σL) (right : Executor σR)
  (leftKeyExpr rightKeyExpr : Expr)

/-- The text of the key of a tuple. -/
def keyText (keyExpr : Expr) (schema : Schema) (tuple : Tuple) : Option (List UInt8) :=
  (keyExpr.evaluate tuple schema).map Value.toString

/-- The bucket of a key; there is an empty one if the key is not in the table. -/
def bucket (table : UnorderedMap (List UInt8) (List Tuple)) (key : List UInt8) : List Tuple :=
  (table.lookup key).getD []

/-- The loop of `Init`: `hash_table_[key].push_back(left_tuple)` for all left rows. -/
def build : Nat → σL → UnorderedMap (List UInt8) (List Tuple) →
    Option (σL × UnorderedMap (List UInt8) (List Tuple))
  | 0, _, _ => none
  | fuel + 1, st, table =>
    match left.next st with
    | none => none
    | some (none, st) => some (st, table)
    | some (some tuple, st) =>
      match keyText leftKeyExpr left.outputSchema tuple with
      | none => none
      | some key => build fuel st (table.insert key (bucket table key ++ [tuple]))

/-- Model of `Init`. -/
def init (fuel : Nat) (st : HashJoin σL σR) : Option (HashJoin σL σR) :=
  match left.init st.left, right.init st.right with
  | some l, some r =>
    (build left leftKeyExpr fuel l ∅).map fun (l, table) =>
      { st with
        left := l, right := r, hashTable := table, currentBucket := none, bucketCursor := 0 }
  | _, _ => none

/-- The loop of `Next`. -/
def next : Nat → HashJoin σL σR → Option (Option Tuple × HashJoin σL σR)
  | 0, _ => none
  | fuel + 1, st =>
    match st.currentBucket.bind fun bucket => bucket[st.bucketCursor]? with
    | some leftTuple =>
      (joinRow left.outputSchema right.outputSchema leftTuple st.rightTuple).map fun tuple =>
        (some tuple, { st with bucketCursor := st.bucketCursor + 1 })
    | none =>
      match right.next st.right with
      | none => none
      | some (none, r) => some (none, { st with right := r })
      | some (some rightTuple, r) =>
        match keyText rightKeyExpr right.outputSchema rightTuple with
        | none => none
        | some key =>
          match st.hashTable.lookup key with
          | some bucket =>
            next fuel { st with
              right := r, rightTuple, currentBucket := some bucket, bucketCursor := 0 }
          | none => next fuel { st with right := r, rightTuple, currentBucket := none }

/-- The executor; its loops get the fuel. -/
def executor (fuel : Nat) (outputSchema : Schema) : Executor (HashJoin σL σR) where
  outputSchema := outputSchema
  init := init left right leftKeyExpr fuel
  next := next left right rightKeyExpr fuel

end HashJoin

/-! ## What the joins yield -/

/-- The pairs of the rows, by left rows. -/
def leftMajor (sel : Tuple → Tuple → Bool) (L R : List Tuple) : List (Tuple × Tuple) :=
  L.flatMap fun l => (R.filter (sel l)).map fun r => (l, r)

/-- The pairs of the rows, by right rows. -/
def rightMajor (sel : Tuple → Tuple → Bool) (L R : List Tuple) : List (Tuple × Tuple) :=
  R.flatMap fun r => (L.filter fun l => sel l r).map fun l => (l, r)

/-- The two children: the rows they yield, and the tuple of each pair of rows. -/
structure JoinInput {σL σR : Type} (left : Executor σL) (right : Executor σR) (L R : List Tuple)
    (row : Tuple × Tuple → Tuple) : Prop where
  leftYields : left.Yields L
  rightYields : right.Yields R
  joins : ∀ l ∈ L, ∀ r ∈ R, joinRow left.outputSchema right.outputSchema l r = some (row (l, r))

namespace NestedLoopJoin

variable {σL σR : Type} {left : Executor σL} {right : Executor σR} {predicate : Option Expr}
  {L R : List Tuple} {row : Tuple × Tuple → Tuple} {sel : Tuple → Tuple → Bool}

/-- The rows still to come, and how many rounds of the loop they take at most. -/
inductive Pending (left : Executor σL) (right : Executor σR) (L R : List Tuple)
    (row : Tuple × Tuple → Tuple) (sel : Tuple → Tuple → Bool) :
    NestedLoopJoin σL σR → List Tuple → Nat → Prop where
  | fetch {st : NestedLoopJoin σL σR} {restL : List Tuple} :
      st.hasLeftTuple = false → left.Produces st.left restL → (∀ l ∈ restL, l ∈ L) →
      Pending left right L R row sel st ((leftMajor sel restL R).map row)
        (restL.length * (R.length + 2))
  | scan {st : NestedLoopJoin σL σR} {restL restR : List Tuple} :
      st.hasLeftTuple = true → st.leftTuple ∈ L → left.Produces st.left restL →
      (∀ l ∈ restL, l ∈ L) → right.Produces st.right restR → (∀ r ∈ restR, r ∈ R) →
      Pending left right L R row sel st
        (((leftMajor sel [st.leftTuple] restR) ++ leftMajor sel restL R).map row)
        (restR.length + 1 + restL.length * (R.length + 2))

/-- What a call of `Next` does: it returns the first of the rows to come. -/
def Returns (left : Executor σL) (right : Executor σR) (L R : List Tuple)
    (row : Tuple × Tuple → Tuple) (sel : Tuple → Tuple → Bool)
    (result : Option (Option Tuple × NestedLoopJoin σL σR)) (rows : List Tuple) (n : Nat) : Prop :=
  ∃ st', result = some (rows.head?, st') ∧
    ∀ tuple rest, rows = tuple :: rest → ∃ n' ≤ n, Pending left right L R row sel st' rest n'

theorem leftMajor_cons (l : Tuple) (L R : List Tuple) :
    leftMajor sel (l :: L) R = leftMajor sel [l] R ++ leftMajor sel L R := by
  simp [leftMajor]

/-- One right row for a left row, given what the rest of the loop does. -/
theorem scanRight_spec (hin : JoinInput left right L R row)
    (hsel : ∀ l ∈ L, ∀ r ∈ R, joinSelects predicate left.outputSchema right.outputSchema l r =
      some (sel l r))
    {loop : NestedLoopJoin σL σR → Option (Option Tuple × NestedLoopJoin σL σR)} {fuel : Nat}
    (hloop : ∀ {st rows n}, Pending left right L R row sel st rows n → n < fuel →
      Returns left right L R row sel (loop st) rows n)
    {st : NestedLoopJoin σL σR} {restL restR : List Tuple} (hhas : st.hasLeftTuple = true)
    (hl : st.leftTuple ∈ L) (hleft : left.Produces st.left restL) (hrestL : ∀ l ∈ restL, l ∈ L)
    (hright : right.Produces st.right restR) (hrestR : ∀ r ∈ restR, r ∈ R)
    (hfuel : restR.length + restL.length * (R.length + 2) < fuel) :
    Returns left right L R row sel (scanRight left right predicate loop st)
      ((leftMajor sel [st.leftTuple] restR ++ leftMajor sel restL R).map row)
      (restR.length + restL.length * (R.length + 2)) := by
  cases hright with
  | @done _ r' hnext =>
    rw [scanRight, hnext]
    have hfetch : Pending left right L R row sel { st with right := r', hasLeftTuple := false }
        ((leftMajor sel restL R).map row) (restL.length * (R.length + 2)) :=
      .fetch rfl hleft hrestL
    have hreturns := hloop hfetch (by simpa using hfuel)
    simpa [leftMajor] using hreturns
  | @row _ r' rightTuple restR hnext hproduces =>
    have hr : rightTuple ∈ R := hrestR _ List.mem_cons_self
    have hrest : ∀ r ∈ restR, r ∈ R := fun r h => hrestR r (List.mem_cons_of_mem _ h)
    have hscan : Pending left right L R row sel { st with right := r' }
        ((leftMajor sel [st.leftTuple] restR ++ leftMajor sel restL R).map row)
        (restR.length + 1 + restL.length * (R.length + 2)) :=
      .scan hhas hl hleft hrestL hproduces hrest
    rw [List.length_cons] at hfuel ⊢
    simp only [scanRight, hnext, hsel _ hl _ hr]
    cases hb : sel st.leftTuple rightTuple with
    | false =>
      have hreturns := hloop hscan hfuel
      simpa [leftMajor, hb] using hreturns
    | true =>
      refine ⟨{ st with right := r' }, ?_, ?_⟩
      · simp [hin.joins _ hl _ hr, leftMajor, hb]
      · intro tuple rest heq
        obtain rfl : rest =
            (leftMajor sel [st.leftTuple] restR ++ leftMajor sel restL R).map row := by
          simp [leftMajor, hb] at heq
          simp [leftMajor, heq.2]
        exact ⟨_, Nat.le_refl _, hscan⟩

/-- **A call of `Next`** returns the first of the rows to come. The induction is on
the fuel, of which each round takes one unit. -/
theorem next_spec (hin : JoinInput left right L R row)
    (hsel : ∀ l ∈ L, ∀ r ∈ R, joinSelects predicate left.outputSchema right.outputSchema l r =
      some (sel l r)) :
    ∀ {fuel : Nat} {st : NestedLoopJoin σL σR} {rows : List Tuple} {n : Nat},
      Pending left right L R row sel st rows n → n < fuel →
      Returns left right L R row sel (next left right predicate fuel st) rows n := by
  intro fuel
  induction fuel with
  | zero => exact fun _ h => absurd h (Nat.not_lt_zero _)
  | succ fuel ih =>
    intro st rows n hpending hfuel
    cases hpending with
    | @scan restL restR hhas hl hleft hrestL hright hrestR =>
      have hfetch : fetchLeft left right st = some (true, st) := by simp [fetchLeft, hhas]
      obtain ⟨st', heq, hrest⟩ :=
        scanRight_spec hin hsel ih hhas hl hleft hrestL hright hrestR (by omega)
      refine ⟨st', by rw [next, hfetch]; exact heq, fun tuple rest h => ?_⟩
      obtain ⟨n', hle, hpending'⟩ := hrest tuple rest h
      exact ⟨n', by omega, hpending'⟩
    | @fetch restL hhas hleft hrestL =>
      cases hleft with
      | @done _ l' hnext =>
        refine ⟨{ st with left := l' }, ?_, fun _ _ h => ?_⟩
        · simp [next, fetchLeft, hhas, hnext, leftMajor]
        · simp [leftMajor] at h
      | @row _ l' tuple restL hnext hproduces =>
        obtain ⟨r', hinit, hright⟩ := hin.rightYields st.right
        let st₁ : NestedLoopJoin σL σR := ⟨l', r', tuple, true⟩
        have hfetch : fetchLeft left right st = some (true, st₁) := by
          simp [fetchLeft, hhas, hnext, hinit, st₁]
        have hhas₁ : st₁.hasLeftTuple = true := rfl
        have hcount : (tuple :: restL).length * (R.length + 2) =
            R.length + 2 + restL.length * (R.length + 2) := by
          rw [List.length_cons, Nat.succ_mul, Nat.add_comm]
        rw [hcount] at hfuel ⊢
        obtain ⟨st', heq, hrest⟩ := scanRight_spec hin hsel ih hhas₁
          (hrestL tuple List.mem_cons_self) hproduces
          (fun l h => hrestL l (List.mem_cons_of_mem _ h)) hright (fun r h => h) (by omega)
        rw [leftMajor_cons]
        refine ⟨st', by rw [next, hfetch]; exact heq, fun t rest h => ?_⟩
        obtain ⟨n', hle, hpending'⟩ := hrest t rest h
        exact ⟨n', by omega, hpending'⟩

/-- **The nested loop join** yields the pairs that satisfy the predicate, by left
rows. -/
theorem yields (hin : JoinInput left right L R row)
    (hsel : ∀ l ∈ L, ∀ r ∈ R, joinSelects predicate left.outputSchema right.outputSchema l r =
      some (sel l r))
    {fuel : Nat} (hfuel : L.length * (R.length + 2) < fuel) (outputSchema : Schema) :
    (executor left right predicate fuel outputSchema).Yields ((leftMajor sel L R).map row) := by
  have hproduces : ∀ {st : NestedLoopJoin σL σR} {rows : List Tuple},
      (∃ n, Pending left right L R row sel st rows n ∧ n < fuel) →
      (executor left right predicate fuel outputSchema).Produces st rows := by
    refine Executor.produces_of
      (fun st rows => ∃ n, Pending left right L R row sel st rows n ∧ n < fuel) ?_
    rintro st rows ⟨n, hpending, hn⟩
    obtain ⟨st', heq, hrest⟩ := next_spec hin hsel hpending hn
    refine ⟨st', heq, fun tuple rest h => ?_⟩
    obtain ⟨n', hle, hpending'⟩ := hrest tuple rest h
    exact ⟨n', hpending', Nat.lt_of_le_of_lt hle hn⟩
  intro st
  obtain ⟨l, hinitL, hL⟩ := hin.leftYields st.left
  obtain ⟨r, hinitR, -⟩ := hin.rightYields st.right
  refine ⟨{ st with left := l, right := r, hasLeftTuple := false }, ?_, ?_⟩
  · simp [executor, init, hinitL, hinitR]
  · exact hproduces ⟨_, .fetch rfl hL fun l h => h, hfuel⟩

end NestedLoopJoin

namespace HashJoin

variable {σL σR : Type} {left : Executor σL} {right : Executor σR} {leftKeyExpr rightKeyExpr : Expr}
  {L R : List Tuple} {row : Tuple × Tuple → Tuple} {leftKey rightKey : Tuple → List UInt8}

theorem bucket_insert (table : UnorderedMap (List UInt8) (List Tuple)) (key k : List UInt8)
    (tuples : List Tuple) :
    bucket (table.insert key tuples) k = if k = key then tuples else bucket table k := by
  rw [bucket, lookup_insert_eq]
  split
  · rfl
  · rfl

/-- **The loop of `Init`** puts every left row into the bucket of its key. -/
theorem build_spec {restL : List Tuple}
    (hkey : ∀ l ∈ restL, keyText leftKeyExpr left.outputSchema l = some (leftKey l)) :
    ∀ {fuel : Nat} {st : σL} {table : UnorderedMap (List UInt8) (List Tuple)},
      left.Produces st restL → restL.length < fuel →
      ∃ st' table', build left leftKeyExpr fuel st table = some (st', table') ∧
        ∀ key, bucket table' key = bucket table key ++ restL.filter fun l => leftKey l = key := by
  induction restL with
  | nil =>
    intro fuel st table hproduces hfuel
    obtain ⟨fuel, rfl⟩ := Nat.exists_eq_succ_of_ne_zero (Nat.ne_of_gt hfuel)
    cases hproduces with
    | done hnext => exact ⟨_, table, by rw [build, hnext], fun key => by simp⟩
  | cons l restL ih =>
    intro fuel st table hproduces hfuel
    obtain ⟨fuel, rfl⟩ := Nat.exists_eq_succ_of_ne_zero (Nat.ne_of_gt (Nat.zero_lt_of_lt hfuel))
    cases hproduces with
    | row hnext hrest =>
      obtain ⟨st', table', hbuild, hbuckets⟩ := @ih
        (fun l' h => hkey l' (List.mem_cons_of_mem _ h)) fuel _
        (table.insert (leftKey l) (bucket table (leftKey l) ++ [l])) hrest
        (Nat.lt_of_succ_lt_succ hfuel)
      refine ⟨st', table', ?_, fun key => ?_⟩
      · simp only [build, hnext, hkey l List.mem_cons_self, hbuild]
      · rw [hbuckets, bucket_insert]
        by_cases heq : leftKey l = key
        · subst heq
          simp
        · rw [if_neg (Ne.symm heq)]
          simp [heq]

/-- The rows still to come, and how many rounds of the loop they take at most: those
of the current bucket, and those of the right rows that are left. -/
inductive Pending (right : Executor σR) (L R : List Tuple) (row : Tuple × Tuple → Tuple)
    (leftKey rightKey : Tuple → List UInt8) : HashJoin σL σR → List Tuple → Nat → Prop where
  | mk {st : HashJoin σL σR} {front restR : List Tuple} :
      (∀ key, bucket st.hashTable key = L.filter fun l => leftKey l = key) →
      (st.currentBucket.getD []).drop st.bucketCursor = front →
      (∀ l ∈ front, l ∈ L ∧ st.rightTuple ∈ R) →
      right.Produces st.right restR → (∀ r ∈ restR, r ∈ R) →
      Pending right L R row leftKey rightKey st
        ((front.map fun l => (l, st.rightTuple)) ++
          rightMajor (fun l r => decide (leftKey l = rightKey r)) L restR |>.map row)
        restR.length

/-- **A call of `Next`** returns the first of the rows to come. -/
theorem next_spec (hin : JoinInput left right L R row)
    (hkey : ∀ r ∈ R, keyText rightKeyExpr right.outputSchema r = some (rightKey r)) :
    ∀ {fuel : Nat} {st : HashJoin σL σR} {rows : List Tuple} {n : Nat},
      Pending right L R row leftKey rightKey st rows n → n < fuel →
      ∃ st', next left right rightKeyExpr fuel st = some (rows.head?, st') ∧
        ∀ tuple rest, rows = tuple :: rest →
          ∃ n' ≤ n, Pending right L R row leftKey rightKey st' rest n' := by
  intro fuel
  induction fuel with
  | zero => exact fun _ h => absurd h (Nat.not_lt_zero _)
  | succ fuel ih =>
    intro st rows n hpending hfuel
    obtain @⟨front, restR, htable, hfront, hmem, hright, hrestR⟩ := hpending
    have hcursor : (st.currentBucket.bind fun bucket => bucket[st.bucketCursor]?) =
        front.head? := by
      rw [← hfront, List.head?_drop]
      cases st.currentBucket with
      | none => rfl
      | some bucket => rfl
    cases front with
    | cons l front =>
      obtain ⟨hl, hr⟩ := hmem l List.mem_cons_self
      refine ⟨{ st with bucketCursor := st.bucketCursor + 1 }, ?_, fun tuple rest heq => ?_⟩
      · rw [next, hcursor]
        simp [hin.joins l hl _ hr]
      · obtain rfl := (List.cons.inj heq).2
        refine ⟨_, Nat.le_refl _, .mk htable ?_ ?_ hright hrestR⟩
        · rw [← List.drop_drop, hfront]
          rfl
        · exact fun l' h => hmem l' (List.mem_cons_of_mem _ h)
    | nil =>
      cases hright with
      | @done _ r' hnext =>
        refine ⟨{ st with right := r' }, ?_, fun _ _ h => ?_⟩
        · rw [next, hcursor]
          simp [hnext, rightMajor]
        · simp [rightMajor] at h
      | @row _ r' rightTuple restR hnext hproduces =>
        have hr : rightTuple ∈ R := hrestR _ List.mem_cons_self
        have hrest : ∀ r ∈ restR, r ∈ R := fun r h => hrestR r (List.mem_cons_of_mem _ h)
        -- the state that the loop goes on with has the matching left rows to come
        have hgo : ∀ st' : HashJoin σL σR, st'.right = r' → st'.rightTuple = rightTuple →
            st'.hashTable = st.hashTable →
            (st'.currentBucket.getD []).drop st'.bucketCursor =
              bucket st.hashTable (rightKey rightTuple) →
            Pending right L R row leftKey rightKey st'
              ((rightMajor (fun l r => decide (leftKey l = rightKey r)) L
                (rightTuple :: restR)).map row) restR.length := by
          rintro st' rfl rfl htable' hdrop
          rw [htable] at hdrop
          rw [← htable'] at htable
          have hmk : Pending right L R row leftKey rightKey st'
              (((L.filter fun l => leftKey l = rightKey st'.rightTuple).map
                fun l => (l, st'.rightTuple)) ++
                rightMajor (fun l r => decide (leftKey l = rightKey r)) L restR |>.map row)
              restR.length :=
            .mk htable hdrop (fun l h => ⟨(List.mem_filter.mp h).1, hr⟩) hproduces hrest
          simpa [rightMajor] using hmk
        have hlookup := hkey rightTuple hr
        rw [List.length_cons] at hfuel
        obtain ⟨st₁, hnext₁, hpending₁⟩ : ∃ st₁, next left right rightKeyExpr (fuel + 1) st =
            next left right rightKeyExpr fuel st₁ ∧ Pending right L R row leftKey rightKey st₁
              ((rightMajor (fun l r => decide (leftKey l = rightKey r)) L
                (rightTuple :: restR)).map row) restR.length := by
          cases hfound : st.hashTable.lookup (rightKey rightTuple) with
          | none =>
            refine ⟨{ st with right := r', rightTuple, currentBucket := none }, ?_,
              hgo _ rfl rfl rfl ?_⟩
            · rw [next, hcursor]
              simp [hnext, hlookup, hfound]
            · simp [bucket, hfound]
          | some b =>
            refine ⟨{ st with right := r', rightTuple, currentBucket := some b, bucketCursor := 0 },
              ?_, hgo _ rfl rfl rfl ?_⟩
            · rw [next, hcursor]
              simp [hnext, hlookup, hfound]
            · simp [bucket, hfound]
        obtain ⟨st', heq, hrest'⟩ := ih hpending₁ (Nat.lt_of_succ_lt_succ hfuel)
        refine ⟨st', by rw [hnext₁]; exact heq, fun tuple rest h => ?_⟩
        obtain ⟨n', hle, hpending'⟩ := hrest' tuple rest h
        exact ⟨n', Nat.le_succ_of_le hle, hpending'⟩

/-- **The hash join** yields the pairs whose keys have the same text, by right rows. -/
theorem yields (hin : JoinInput left right L R row)
    (hleftKey : ∀ l ∈ L, keyText leftKeyExpr left.outputSchema l = some (leftKey l))
    (hrightKey : ∀ r ∈ R, keyText rightKeyExpr right.outputSchema r = some (rightKey r))
    {fuel : Nat} (hfuelL : L.length < fuel) (hfuelR : R.length < fuel) (outputSchema : Schema) :
    (executor left right leftKeyExpr rightKeyExpr fuel outputSchema).Yields
      ((rightMajor (fun l r => decide (leftKey l = rightKey r)) L R).map row) := by
  have hproduces : ∀ {st : HashJoin σL σR} {rows : List Tuple},
      (∃ n, Pending right L R row leftKey rightKey st rows n ∧ n < fuel) →
      (executor left right leftKeyExpr rightKeyExpr fuel outputSchema).Produces st rows := by
    refine Executor.produces_of
      (fun st rows => ∃ n, Pending right L R row leftKey rightKey st rows n ∧ n < fuel) ?_
    rintro st rows ⟨n, hpending, hn⟩
    obtain ⟨st', heq, hrest⟩ := next_spec hin hrightKey hpending hn
    refine ⟨st', heq, fun tuple rest h => ?_⟩
    obtain ⟨n', hle, hpending'⟩ := hrest tuple rest h
    exact ⟨n', hpending', Nat.lt_of_le_of_lt hle hn⟩
  intro st
  obtain ⟨l, hinitL, hL⟩ := hin.leftYields st.left
  obtain ⟨r, hinitR, hR⟩ := hin.rightYields st.right
  obtain ⟨l', table, hbuild, hbuckets⟩ :=
    @build_spec _ _ _ _ _ hleftKey _ _ (∅ : UnorderedMap (List UInt8) (List Tuple)) hL hfuelL
  let st₁ : HashJoin σL σR :=
    { st with left := l', right := r, hashTable := table, currentBucket := none, bucketCursor := 0 }
  have hpending : Pending right L R row leftKey rightKey st₁
      ((([] : List Tuple).map fun l => (l, st₁.rightTuple)) ++
        rightMajor (fun l r => decide (leftKey l = rightKey r)) L R |>.map row) R.length := by
    refine .mk (fun key => ?_) rfl (fun _ h => absurd h List.not_mem_nil) hR fun r h => h
    rw [hbuckets]
    rfl
  refine ⟨st₁, ?_, hproduces ⟨_, hpending, hfuelR⟩⟩
  simp [executor, init, hinitL, hinitR, hbuild, st₁]

end HashJoin

end OneBase
