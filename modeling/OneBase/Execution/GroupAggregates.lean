import OneBase.Execution.GroupKeys

/-!
# Aggregates of INTEGER expressions (`aggregation_executor.cpp`)

The result of an aggregation is stated without states and keys: for each vector of
group-by values that occurs, the vector and the aggregates of the rows that have it.

- `aggregateOf`: what an aggregate of some rows is, as a number.
- `foldState_integer`: the state of a group has that number, if it fits.
- `yields_perm_expected`: the executor outputs the groups with their aggregates, in some
  order, whatever the order of the input.
- `count_overflows`: a count of 2³¹ rows does not fit.
-/

namespace OneBase

open Cpp

/-! ## The aggregates of some rows -/

/-- The value of an expression that has type INTEGER on a row. -/
def IntegerAt (schema : Schema) (expr : Expr) (tuple : Tuple) : Prop :=
  ∃ v, expr.evaluate tuple schema = some v ∧ v.getTypeId = .integer

/-- The number that the expression has on a row, if it is not NULL. -/
def intOf (schema : Schema) (expr : Expr) (tuple : Tuple) : Option Int :=
  match expr.evaluate tuple schema with
  | some (.integer i) => some i.toInt
  | _ => none

/-- The INTEGER value of a number, or NULL. -/
def intValue : Option Int → Value
  | none => .null .integer
  | some i => .integer (Int32.ofInt i)

/-- The numbers of the rows whose value is not NULL. -/
def nonNulls (schema : Schema) (expr : Expr) (rows : List Tuple) : List Int :=
  rows.filterMap (intOf schema expr)

/-- **The aggregate of some rows**, as a number. -/
def aggregateOf (schema : Schema) (call : AggregationType × Expr) (rows : List Tuple) :
    Option Int :=
  match call.1 with
  | .countStarAggregate => some rows.length
  | .countAggregate => some (nonNulls schema call.2 rows).length
  | .sumAggregate =>
    if nonNulls schema call.2 rows = [] then none else some (nonNulls schema call.2 rows).sum
  | .minAggregate => (nonNulls schema call.2 rows).min?
  | .maxAggregate => (nonNulls schema call.2 rows).max?

/-- The partial sums and the counts of the rows fit in 32 bits. -/
def Fits (schema : Schema) (call : AggregationType × Expr) (rows : List Tuple) : Prop :=
  match call.1 with
  | .countStarAggregate => rows.length < 2 ^ 31
  | .countAggregate => (nonNulls schema call.2 rows).length < 2 ^ 31
  | .sumAggregate => ∀ n, IsInt32 (nonNulls schema call.2 (rows.take n)).sum
  | _ => True

variable {schema : Schema} {expr : Expr}

theorem nonNulls_append (rows rows' : List Tuple) :
    nonNulls schema expr (rows ++ rows') =
      nonNulls schema expr rows ++ nonNulls schema expr rows' :=
  List.filterMap_append

/-- An INTEGER value is NULL or a number. -/
theorem IntegerAt.cases {tuple : Tuple} (h : IntegerAt schema expr tuple) :
    (expr.evaluate tuple schema = some (.null .integer) ∧ intOf schema expr tuple = none) ∨
      ∃ i : Int32, expr.evaluate tuple schema = some (.integer i) ∧
        intOf schema expr tuple = some i.toInt := by
  obtain ⟨v, hv, htype⟩ := h
  cases v with
  | null type =>
    cases htype
    exact .inl ⟨hv, by rw [intOf, hv]⟩
  | integer i => exact .inr ⟨i, hv, by rw [intOf, hv]⟩
  | boolean => cases htype
  | float => cases htype
  | varchar => cases htype

/-! ## Counts -/

/-- **A loop that counts** the rows that satisfy `p` overflows exactly when the count
does not fit. -/
theorem foldlM_count {body : AggregateState → Tuple → Option AggregateState} {p : Tuple → Bool}
    {rows : List Tuple}
    (hbody : ∀ r ∈ rows, ∀ state : AggregateState,
      body state r = if p r then state.increment else some state) :
    ∀ state : AggregateState, 0 ≤ state.count.toInt → rows.foldlM body state =
      if state.count.toInt + rows.countP p < 2 ^ 31 then
        some { state with count := Int32.ofInt (state.count.toInt + rows.countP p) }
      else none := by
  induction rows with
  | nil =>
    intro state _
    have hlt : state.count.toInt + ((List.countP p [] : Nat) : Int) < 2 ^ 31 := by
      simpa using state.count.toInt_lt
    rw [if_pos hlt]
    simp
  | cons r rows ih =>
    intro state hnonneg
    have ih' := ih fun r' hr' => hbody r' (List.mem_cons_of_mem _ hr')
    rw [List.foldlM_cons, hbody r List.mem_cons_self]
    by_cases hp : p r = true
    · rw [if_pos hp, List.countP_cons_of_pos hp]
      by_cases hfits : IsInt32 (state.count.toInt + 1)
      · have hone : (state.count + 1).toInt = state.count.toInt + 1 := by
          have hofInt : state.count + 1 = Int32.ofInt (state.count.toInt + 1) := by
            rw [Int32.ofInt_add, Int32.ofInt_toInt]
            rfl
          rw [hofInt, Int32.toInt_ofInt_of_le hfits.1 hfits.2]
        have hsum : state.count.toInt + 1 + (rows.countP p : Int) =
            state.count.toInt + ((rows.countP p + 1 : Nat) : Int) := by omega
        rw [AggregateState.increment, if_pos hfits]
        refine (ih' { state with count := state.count + 1 } ?_).trans ?_
        · show 0 ≤ (state.count + 1).toInt
          omega
        · simp only [hone, hsum]
      · have hlong : ¬ state.count.toInt + ((rows.countP p + 1 : Nat) : Int) < 2 ^ 31 := by
          rw [IsInt32] at hfits
          omega
        rw [AggregateState.increment, if_neg hfits, if_neg hlong]
        rfl
    · rw [if_neg hp, List.countP_cons_of_neg hp]
      exact ih' state hnonneg

/-- `COUNT(*)` and `COUNT` differ in the rows that they count. -/
theorem foldState_count {type : AggregationType} {p : Tuple → Bool} {rows : List Tuple}
    (hbody : ∀ r ∈ rows, ∀ state : AggregateState,
      type.update (expr.evaluate r schema) state = if p r then state.increment else some state) :
    AggregationPlan.foldState schema (type, expr) {} rows =
      if rows.countP p < 2 ^ 31 then
        some { count := Int32.ofInt (rows.countP p) }
      else none := by
  have hzero : (({} : AggregateState).count).toInt = 0 := rfl
  have hcount := foldlM_count hbody {} (by decide)
  rw [hzero, Int.zero_add] at hcount
  refine hcount.trans (if_congr ?_ rfl rfl)
  exact_mod_cast Iff.rfl

/-! ## Sums, minima and maxima -/

/-- The numbers combined from left to right; there is no result without numbers. -/
def fold1 (keep : Int → Int → Int) : List Int → Option Int
  | [] => none
  | i :: numbers => some (numbers.foldl keep i)

theorem fold1_concat (keep : Int → Int → Int) (numbers : List Int) (i : Int) :
    fold1 keep (numbers ++ [i]) =
      some (match fold1 keep numbers with
        | none => i
        | some total => keep total i) := by
  cases numbers with
  | nil => rfl
  | cons j numbers => simp [fold1]

/-- The state for a combined number, where `set` puts it. -/
def foldedState (set : Value → AggregateState) : Option Int → AggregateState
  | none => {}
  | some total => set (.integer (Int32.ofInt total))

/-- The result of such a state is the number. -/
theorem result_foldedState {type : AggregationType} {set : Value → AggregateState}
    (hnew : type.result {} = .null .integer) (hset : ∀ v, type.result (set v) = v)
    (total : Option Int) : type.result (foldedState set total) = intValue total := by
  cases total with
  | none => exact hnew
  | some total => exact hset _

theorem foldState_concat (call : AggregationType × Expr) (state : AggregateState)
    (rows : List Tuple) (r : Tuple) :
    AggregationPlan.foldState schema call state (rows ++ [r]) =
      (AggregationPlan.foldState schema call state rows).bind fun state =>
        call.1.update (call.2.evaluate r schema) state := by
  rw [AggregationPlan.foldState, List.foldlM_append, ← AggregationPlan.foldState]
  refine Option.bind_congr fun state _ => ?_
  rw [List.foldlM_cons]
  exact bind_pure _

/-- **A loop that combines the numbers**: `SUM`, `MIN` and `MAX` differ in the operation
and in the member that has its result. The induction is on the rows from the right: a
new row is combined with the result for the rows before it. -/
theorem foldState_fold1 {type : AggregationType} {set : Value → AggregateState}
    {keep : Int → Int → Int}
    (hnull : ∀ state, type.update (some (.null .integer)) state = some state)
    (hfirst : ∀ i : Int32, type.update (some (.integer i)) {} = some (set (.integer i)))
    (hnext : ∀ m i : Int32, IsInt32 (keep m.toInt i.toInt) →
      type.update (some (.integer i)) (set (.integer m)) =
        some (set (.integer (Int32.ofInt (keep m.toInt i.toInt)))))
    {rows : List Tuple} (hints : ∀ r ∈ rows, IntegerAt schema expr r)
    (hfits : ∀ n total, fold1 keep (nonNulls schema expr (rows.take n)) = some total →
      IsInt32 total) :
    AggregationPlan.foldState schema (type, expr) {} rows =
      some (foldedState set (fold1 keep (nonNulls schema expr rows))) := by
  induction rows using List.reverseRecOn with
  | nil => rfl
  | append_singleton rows r ih =>
    have htake : ∀ n, rows.take n = (rows ++ [r]).take (min n rows.length) := by
      intro n
      rw [List.take_append_of_le_length (Nat.min_le_right _ _)]
      exact List.take_eq_take_min
    have hstate := ih (fun r' hr' => hints r' (List.mem_append_left _ hr'))
      fun n total => by rw [htake]; exact hfits _ total
    have hrows : fold1 keep (nonNulls schema expr rows) =
        fold1 keep (nonNulls schema expr ((rows ++ [r]).take rows.length)) := by
      rw [List.take_left]
    rw [foldState_concat, hstate, Option.bind_some]
    rcases (hints r (List.mem_append_right _ (List.mem_singleton_self r))).cases with
      ⟨hval, hnone⟩ | ⟨i, hval, hsome⟩
    · rw [hval, hnull, nonNulls_append]
      simp [nonNulls, hnone]
    · have hnumbers : nonNulls schema expr (rows ++ [r]) =
          nonNulls schema expr rows ++ [i.toInt] := by
        rw [nonNulls_append]
        simp [nonNulls, hsome]
      have hall : IsInt32 (match fold1 keep (nonNulls schema expr rows) with
          | none => i.toInt
          | some total => keep total i.toInt) := by
        refine hfits (rows.length + 1) _ ?_
        rw [List.take_of_length_le (by simp), hnumbers, fold1_concat]
      rw [hval, hnumbers, fold1_concat]
      cases htotal : fold1 keep (nonNulls schema expr rows) with
      | none =>
        rw [foldedState, foldedState, Int32.ofInt_toInt]
        exact hfirst i
      | some total =>
        have hrange : IsInt32 total := hfits rows.length total (hrows ▸ htotal)
        have htoInt : (Int32.ofInt total).toInt = total :=
          Int32.toInt_ofInt_of_le hrange.1 hrange.2
        rw [htotal] at hall
        rw [foldedState, foldedState, hnext _ i (by rw [htoInt]; exact hall), htoInt]

/-- A number of a row is a 32-bit number. -/
theorem isInt32_of_mem_nonNulls {rows : List Tuple} (hints : ∀ r ∈ rows, IntegerAt schema expr r)
    {i : Int} (hi : i ∈ nonNulls schema expr rows) : IsInt32 i := by
  obtain ⟨r, hr, hval⟩ := List.mem_filterMap.mp hi
  rcases (hints r hr).cases with ⟨-, hnone⟩ | ⟨j, -, hsome⟩
  · rw [hnone] at hval
    cases hval
  · rw [hsome] at hval
    cases hval
    exact ⟨j.le_toInt, j.toInt_lt⟩

theorem isInt32_of_mem_take {rows : List Tuple} (hints : ∀ r ∈ rows, IntegerAt schema expr r)
    (n : Nat) {i : Int} (hi : i ∈ nonNulls schema expr (rows.take n)) : IsInt32 i :=
  isInt32_of_mem_nonNulls (fun r hr => hints r (List.mem_of_mem_take hr)) hi

theorem fold1_add (numbers : List Int) :
    fold1 (· + ·) numbers = if numbers = [] then none else some numbers.sum := by
  cases numbers with
  | nil => rfl
  | cons i numbers =>
    have hfoldl : ∀ i : Int, numbers.foldl (· + ·) i = i + numbers.sum := by
      induction numbers with
      | nil => exact fun i => (Int.add_zero i).symm
      | cons j numbers ih =>
        intro i
        rw [List.foldl_cons, ih, List.sum_cons, Int.add_assoc]
    rw [fold1, if_neg (List.cons_ne_nil _ _), List.sum_cons, hfoldl]

theorem fold1_min (numbers : List Int) : fold1 min numbers = numbers.min? := by
  cases numbers with
  | nil => rfl
  | cons i numbers => exact List.min?_cons'.symm

theorem fold1_max (numbers : List Int) : fold1 max numbers = numbers.max? := by
  cases numbers with
  | nil => rfl
  | cons i numbers => exact List.max?_cons'.symm

/-- The comparisons that `MIN` and `MAX` make. -/
theorem compareLessThan_integer (i j : Int32) :
    (Value.integer i).compareLessThan (.integer j) =
      some (.boolean (decide (i.toInt < j.toInt))) := by
  show some (Value.boolean (decide (i < j))) = _
  rw [decide_eq_decide.mpr Int32.lt_iff_toInt_lt]

theorem compareGreaterThan_integer (i j : Int32) :
    (Value.integer i).compareGreaterThan (.integer j) =
      some (.boolean (decide (j.toInt < i.toInt))) := by
  show some (Value.boolean (decide (j < i))) = _
  rw [decide_eq_decide.mpr Int32.lt_iff_toInt_lt]

/-- A number is added, if the sum fits. -/
theorem update_sum {m i : Int32} (hrange : IsInt32 (m.toInt + i.toInt)) :
    AggregationType.sumAggregate.update (some (.integer i))
        { sum := .integer m, hasValue := true } =
      some { sum := .integer (Int32.ofInt (m.toInt + i.toInt)), hasValue := true } := by
  have hadd : (Value.integer m).add (.integer i) =
      some (.integer (Int32.ofInt (m.toInt + i.toInt))) := by
    show Value.ofExact (m.toInt + i.toInt) = _
    rw [Value.ofExact, if_pos hrange]
  simp [AggregationType.update, Value.isNull, hadd]

theorem update_min (m i : Int32) :
    AggregationType.minAggregate.update (some (.integer i))
        { min := .integer m, hasValue := true } =
      some { min := .integer (Int32.ofInt (min m.toInt i.toInt)), hasValue := true } := by
  by_cases hlt : i.toInt < m.toInt
  · rw [min_eq_right (Int.le_of_lt hlt), Int32.ofInt_toInt]
    simp [AggregationType.update, Value.isNull, compareLessThan_integer, hlt]
  · rw [min_eq_left (Int.not_lt.mp hlt), Int32.ofInt_toInt]
    simp [AggregationType.update, Value.isNull, compareLessThan_integer, hlt]

theorem update_max (m i : Int32) :
    AggregationType.maxAggregate.update (some (.integer i))
        { max := .integer m, hasValue := true } =
      some { max := .integer (Int32.ofInt (max m.toInt i.toInt)), hasValue := true } := by
  by_cases hlt : m.toInt < i.toInt
  · rw [max_eq_right (Int.le_of_lt hlt), Int32.ofInt_toInt]
    simp [AggregationType.update, Value.isNull, compareGreaterThan_integer, hlt]
  · rw [max_eq_left (Int.not_lt.mp hlt), Int32.ofInt_toInt]
    simp [AggregationType.update, Value.isNull, compareGreaterThan_integer, hlt]

/-- **The state of a group** has the aggregate of its rows. -/
theorem foldState_integer {type : AggregationType} {rows : List Tuple}
    (hints : type ≠ .countStarAggregate → ∀ r ∈ rows, IntegerAt schema expr r)
    (hfits : Fits schema (type, expr) rows) :
    ∃ state, AggregationPlan.foldState schema (type, expr) {} rows = some state ∧
      type.result state = intValue (aggregateOf schema (type, expr) rows) := by
  cases type with
  | countStarAggregate =>
    have hbody : ∀ r ∈ rows, ∀ state : AggregateState,
        AggregationType.countStarAggregate.update (expr.evaluate r schema) state =
          if (fun _ : Tuple => true) r then state.increment else some state :=
      fun _ _ _ => rfl
    have hlen : rows.countP (fun _ => true) = rows.length := by simp
    have hcount := foldState_count hbody
    rw [hlen] at hcount
    exact ⟨_, hcount.trans (if_pos hfits), rfl⟩
  | countAggregate =>
    have hbody : ∀ r ∈ rows, ∀ state : AggregateState,
        AggregationType.countAggregate.update (expr.evaluate r schema) state =
          if (intOf schema expr r).isSome then state.increment else some state := by
      intro r hr state
      rcases (hints (by decide) r hr).cases with ⟨hval, hnone⟩ | ⟨i, hval, hsome⟩
      · rw [hval, hnone]
        rfl
      · rw [hval, hsome]
        rfl
    have hlen : rows.countP (fun r => (intOf schema expr r).isSome) =
        (nonNulls schema expr rows).length := by
      rw [nonNulls, List.length_filterMap_eq_countP]
    have hcount := foldState_count hbody
    rw [hlen] at hcount
    exact ⟨_, hcount.trans (if_pos hfits), rfl⟩
  | sumAggregate =>
    have hstate := @foldState_fold1 schema expr .sumAggregate
      (fun v => { sum := v, hasValue := true }) (· + ·) (fun _ => rfl) (fun _ => rfl)
      (fun _ _ hrange => update_sum hrange) rows (hints (by decide))
      (fun n total htotal => by
        rw [fold1_add] at htotal
        split at htotal
        · cases htotal
        · obtain rfl := Option.some.inj htotal
          exact hfits n)
    exact ⟨_, hstate, (result_foldedState rfl (fun _ => rfl) _).trans
      (congrArg intValue (fold1_add _))⟩
  | minAggregate =>
    have hstate := @foldState_fold1 schema expr .minAggregate
      (fun v => { min := v, hasValue := true }) min (fun _ => rfl) (fun _ => rfl)
      (fun m i _ => update_min m i) rows (hints (by decide))
      (fun n total htotal => by
        rw [fold1_min] at htotal
        exact isInt32_of_mem_take (hints (by decide)) n (List.min?_mem htotal))
    exact ⟨_, hstate, (result_foldedState rfl (fun _ => rfl) _).trans
      (congrArg intValue (fold1_min _))⟩
  | maxAggregate =>
    have hstate := @foldState_fold1 schema expr .maxAggregate
      (fun v => { max := v, hasValue := true }) max (fun _ => rfl) (fun _ => rfl)
      (fun m i _ => update_max m i) rows (hints (by decide))
      (fun n total htotal => by
        rw [fold1_max] at htotal
        exact isInt32_of_mem_take (hints (by decide)) n (List.max?_mem htotal))
    exact ⟨_, hstate, (result_foldedState rfl (fun _ => rfl) _).trans
      (congrArg intValue (fold1_max _))⟩

/-! ## The result -/

namespace AggregationPlan

variable {plan : AggregationPlan}

/-- The vectors of group-by values that occur; without GROUP BY there is one, the empty
vector, in any case. -/
def distinctGroups (plan : AggregationPlan) (schema : Schema) (rows : List Tuple) :
    List (List Value) :=
  if plan.groupBys = [] then [[]] else (rows.filterMap (plan.groupValues schema)).dedup

/-- **The rows of the result**: each vector with the aggregates of the rows that have it. -/
def expected (plan : AggregationPlan) (schema : Schema) (rows : List Tuple) : List (List Value) :=
  (plan.distinctGroups schema rows).map fun values =>
    values ++ plan.aggregates.map fun call =>
      intValue (aggregateOf schema call (rowsWith (plan.groupValues schema) rows values))

/-- All expressions that are evaluated have type INTEGER on the rows, and the sums and
the counts of each group fit. -/
structure IntegerInput (plan : AggregationPlan) (schema : Schema) (rows : List Tuple) : Prop where
  groups : ∀ expr ∈ plan.groupBys, ∀ r ∈ rows, IntegerAt schema expr r
  arguments : ∀ call ∈ plan.aggregates, call.1 ≠ .countStarAggregate →
    ∀ r ∈ rows, IntegerAt schema call.2 r
  fits : ∀ values, ∀ call ∈ plan.aggregates,
    Fits schema call (rowsWith (plan.groupValues schema) rows values)

/-- The group-by values of a row are INTEGER values. -/
theorem exists_groupValues {rows : List Tuple}
    (hgroups : ∀ expr ∈ plan.groupBys, ∀ r ∈ rows, IntegerAt schema expr r) {r : Tuple}
    (hr : r ∈ rows) :
    ∃ values, plan.groupValues schema r = some values ∧ ∀ v ∈ values, v.getTypeId = .integer := by
  obtain ⟨values, hvalues⟩ : ∃ values, plan.groupValues schema r = some values :=
    exists_mapM fun expr hexpr => (hgroups expr hexpr r hr).imp fun _ h => h.1
  refine ⟨values, hvalues, fun v hv => ?_⟩
  obtain ⟨expr, hexpr, hval⟩ := exists_of_mem_mapM hvalues hv
  obtain ⟨w, hw, htype⟩ := hgroups expr hexpr r hr
  rw [hw] at hval
  exact Option.some.inj hval ▸ htype

/-- INTEGER values are read back from the keys. -/
theorem IntegerInput.readsBack {rows : List Tuple} (hin : IntegerInput plan schema rows) :
    ReadsBack plan schema rows := by
  intro r hr
  obtain ⟨values, hvalues, htypes⟩ := exists_groupValues hin.groups hr
  exact ⟨values, hvalues, fun v hv => readBack_integer (htypes v hv)⟩

/-- The results of the states of a group. -/
theorem zipWith_result {calls : List (AggregationType × Expr)} {rows : List Tuple}
    (hcalls : ∀ call ∈ calls, ∃ state, foldState schema call {} rows = some state ∧
      call.1.result state = intValue (aggregateOf schema call rows)) :
    ∃ states, calls.mapM (fun call => foldState schema call {} rows) = some states ∧
      List.zipWith (fun call state => call.1.result state) calls states =
        calls.map fun call => intValue (aggregateOf schema call rows) := by
  obtain ⟨states, hstates⟩ :=
    exists_mapM fun call hcall => (hcalls call hcall).imp fun _ h => h.1
  refine ⟨states, hstates, Option.some.inj ?_⟩
  rw [← mapM_zipWith hstates]
  refine mapM_eq_some_map fun call hcall => ?_
  obtain ⟨state, hstate, hresult⟩ := hcalls call hcall
  rw [hstate, Option.map_some, hresult]

/-- **The states of a group** have the aggregates of its rows. -/
theorem foldStates_integer {rows : List Tuple} (hin : IntegerInput plan schema rows)
    (values : List Value) :
    ∃ states, foldStates schema plan.aggregates plan.newStates
        (rowsWith (plan.groupValues schema) rows values) = some states ∧
      List.zipWith (fun call state => call.1.result state) plan.aggregates states =
        plan.aggregates.map fun call =>
          intValue (aggregateOf schema call (rowsWith (plan.groupValues schema) rows values)) := by
  rw [newStates, foldStates_eq]
  refine zipWith_result fun call hcall => ?_
  exact foldState_integer
    (fun hne r hr => hin.arguments call hcall hne r (mem_rowsWith.mp hr).1)
    (hin.fits values call hcall)

theorem nodup_distinctGroups (plan : AggregationPlan) (schema : Schema) (rows : List Tuple) :
    (plan.distinctGroups schema rows).Nodup := by
  rw [distinctGroups]
  split
  · exact List.nodup_singleton _
  · exact List.nodup_dedup _

theorem mem_distinctGroups {rows : List Tuple} (h : rows ≠ [] ∨ plan.groupBys ≠ [])
    {values : List Value} :
    values ∈ plan.distinctGroups schema rows ↔
      ∃ r ∈ rows, plan.groupValues schema r = some values := by
  rw [distinctGroups]
  split
  · rename_i hnil
    have hvalues : ∀ r, plan.groupValues schema r = some [] := by
      intro r
      rw [groupValues, hnil]
      rfl
    obtain ⟨r, rows, rfl⟩ := List.exists_cons_of_ne_nil (h.resolve_right (not_not_intro hnil))
    simp [hvalues, eq_comm]
  · rw [List.mem_dedup, List.mem_filterMap]

theorem emptyValues_eq (plan : AggregationPlan) (schema : Schema) :
    plan.emptyValues = plan.aggregates.map fun call => intValue (aggregateOf schema call []) := by
  refine List.map_congr_left fun call _ => ?_
  obtain ⟨type, expr⟩ := call
  cases type with
  | countStarAggregate => rfl
  | countAggregate => rfl
  | sumAggregate => rfl
  | minAggregate => rfl
  | maxAggregate => rfl

/-- The row that is output for the entry of a vector. -/
theorem entryValues_keyOf {rows : List Tuple} (hin : IntegerInput plan schema rows)
    {groups : AggMap}
    (hgroups : rows.foldlM (plan.aggregateRow schema) ∅ = some groups) {r : Tuple} (hr : r ∈ rows)
    {values : List Value} (hvalues : plan.groupValues schema r = some values) :
    plan.entryValues ⟨plan.keyOf values, (groups.lookup (plan.keyOf values)).getD plan.newStates⟩ =
      values ++ plan.aggregates.map fun call =>
        intValue (aggregateOf schema call (rowsWith (plan.groupValues schema) rows values)) := by
  obtain ⟨states, hstates, hresults⟩ := foldStates_integer hin values
  have hfold := (groupRows_lookup hgroups (plan.keyOf values)).1
  rw [AList.lookup_empty, Option.getD_none, hin.readsBack.rowsWith hr hvalues] at hfold
  have hlookup := Option.some.inj (hfold.symm.trans hstates)
  rw [entryValues, hin.readsBack.decodeKey hr hvalues, hlookup, hresults]

/-- **The entries of the map** are the vectors that occur, with the aggregates of their
rows. -/
theorem entries_perm_expected {rows : List Tuple} (hin : IntegerInput plan schema rows)
    (hne : rows ≠ [] ∨ plan.groupBys ≠ []) {groups : AggMap}
    (hgroups : rows.foldlM (plan.aggregateRow schema) ∅ = some groups)
    (order : MapOrder (List UInt8) (List AggregateState)) :
    ((order.entries groups).map plan.entryValues).Perm (plan.expected schema rows) := by
  have hrow : ∀ {values}, values ∈ plan.distinctGroups schema rows →
      ∃ r ∈ rows, plan.groupValues schema r = some values := (mem_distinctGroups hne).mp
  have hnodup : ((plan.distinctGroups schema rows).map plan.keyOf).Nodup := by
    refine (nodup_distinctGroups plan schema rows).map_on fun values hmem values' hmem' heq => ?_
    obtain ⟨r, hr, hvalues⟩ := hrow hmem
    obtain ⟨r', hr', hvalues'⟩ := hrow hmem'
    rw [← hin.readsBack.decodeKey hr hvalues, heq, hin.readsBack.decodeKey hr' hvalues']
  have hkeys : ∀ key, key ∈ (plan.distinctGroups schema rows).map plan.keyOf ↔ key ∈ groups := by
    intro key
    rw [(groupRows_lookup hgroups key).2, List.mem_map]
    constructor
    · rintro ⟨values, hmem, rfl⟩
      obtain ⟨r, hr, hvalues⟩ := hrow hmem
      exact .inr ⟨r, hr, groupKey_of_values hvalues⟩
    · rintro (hempty | ⟨r, hr, hkey⟩)
      · exact absurd hempty (AList.notMem_empty key)
      · obtain ⟨values, hvalues, -⟩ := exists_groupValues hin.groups hr
        rw [groupKey_of_values hvalues] at hkey
        exact ⟨values, (mem_distinctGroups hne).mpr ⟨r, hr, hvalues⟩, Option.some.inj hkey⟩
  refine ((entries_perm order hnodup hkeys plan.newStates).map plan.entryValues).trans ?_
  rw [List.map_map, List.map_map, expected]
  refine .of_eq (List.map_congr_left fun values hmem => ?_)
  obtain ⟨r, hr, hvalues⟩ := hrow hmem
  exact entryValues_keyOf hin hgroups hr hvalues

/-- **The executor outputs the groups** with their aggregates, in some order. -/
theorem exists_yields_expected {σ : Type} (order : MapOrder (List UInt8) (List AggregateState))
    {child : Executor σ} {rows : List Tuple} (hchild : child.Yields rows) {fuel : Nat}
    (hfuel : rows.length < fuel) (hin : IntegerInput plan child.outputSchema rows) :
    ∃ out, (plan.executor order child fuel).Yields out ∧
      (out.map Tuple.values).Perm (plan.expected child.outputSchema rows) := by
  have hkeys : ∀ r ∈ rows, (plan.groupKey child.outputSchema r).isSome := by
    intro r hr
    obtain ⟨values, hvalues, -⟩ := exists_groupValues hin.groups hr
    rw [groupKey_of_values hvalues]
    rfl
  have hstates : ∀ key, (foldStates child.outputSchema plan.aggregates plan.newStates
      (rowsWith (plan.groupKey child.outputSchema) rows key)).isSome := by
    intro key
    by_cases hoccurs : ∃ r ∈ rows, plan.groupKey child.outputSchema r = some key
    · obtain ⟨r, hr, hkey⟩ := hoccurs
      obtain ⟨values, hvalues, -⟩ := exists_groupValues hin.groups hr
      rw [groupKey_of_values hvalues] at hkey
      obtain rfl := Option.some.inj hkey
      obtain ⟨states, hstates, -⟩ := foldStates_integer hin values
      rw [hin.readsBack.rowsWith hr hvalues, hstates]
      rfl
    · have hnil : rowsWith (plan.groupKey child.outputSchema) rows key = [] :=
        List.filter_eq_nil_iff.mpr fun r hr hkey => hoccurs ⟨r, hr, of_decide_eq_true hkey⟩
      rw [hnil]
      rfl
  obtain ⟨groups, out, hgroups, hyields, hvalues⟩ := exists_yields hchild hfuel hkeys hstates
  refine ⟨out, hyields, ?_⟩
  rw [hvalues, outputValues]
  by_cases hempty : rows = [] ∧ plan.groupBys = []
  · obtain ⟨rfl, hnil⟩ := hempty
    rw [hnil, emptyValues_eq plan child.outputSchema, expected, distinctGroups, if_pos hnil]
    exact .refl _
  · have hne : rows ≠ [] ∨ plan.groupBys ≠ [] := not_and_or.mp hempty
    rw [if_neg]
    · exact entries_perm_expected hin hne hgroups order
    · simpa [List.isEmpty_iff] using hne.symm.elim (fun h _ => h) fun h h' => absurd h' h

/-! ## The order of the input -/

/-- The aggregates of some rows do not depend on their order. -/
theorem aggregateOf_perm {rows rows' : List Tuple} (h : rows.Perm rows')
    (call : AggregationType × Expr) :
    aggregateOf schema call rows = aggregateOf schema call rows' := by
  obtain ⟨type, expr⟩ := call
  have hnumbers : (nonNulls schema expr rows).Perm (nonNulls schema expr rows') := h.filterMap _
  cases type with
  | countStarAggregate => simp only [aggregateOf, h.length_eq]
  | countAggregate => simp only [aggregateOf, hnumbers.length_eq]
  | sumAggregate =>
    have hnil : nonNulls schema expr rows = [] ↔ nonNulls schema expr rows' = [] :=
      ⟨fun heq => (heq ▸ hnumbers).nil_eq.symm, fun heq => (heq ▸ hnumbers).eq_nil⟩
    simp only [aggregateOf, hnumbers.sum_eq, hnil]
  | minAggregate =>
    refine Option.ext fun i => ?_
    simp only [aggregateOf, List.min?_eq_some_iff, hnumbers.mem_iff]
  | maxAggregate =>
    refine Option.ext fun i => ?_
    simp only [aggregateOf, List.max?_eq_some_iff, hnumbers.mem_iff]

/-- **The result does not depend on the order of the input**, up to its own order. -/
theorem expected_perm {rows rows' : List Tuple} (h : rows.Perm rows') :
    (plan.expected schema rows).Perm (plan.expected schema rows') := by
  have hgroups : (plan.distinctGroups schema rows).Perm (plan.distinctGroups schema rows') := by
    rw [distinctGroups, distinctGroups]
    split
    · exact .refl _
    · exact (h.filterMap _).dedup
  rw [expected, expected]
  refine (hgroups.map _).trans (.of_eq (List.map_congr_left fun values _ => ?_))
  refine congrArg _ (List.map_congr_left fun call _ => ?_)
  exact congrArg intValue (aggregateOf_perm (h.filter _) call)

/-- **The result of an aggregation**: the groups with their aggregates. With the same
rows in another order, and another order of the map, the output has the same rows. -/
theorem yields_perm_expected {σ : Type} (order : MapOrder (List UInt8) (List AggregateState))
    {child : Executor σ} {rows : List Tuple} (hchild : child.Yields rows) {fuel : Nat}
    (hfuel : rows.length < fuel) (hin : IntegerInput plan child.outputSchema rows) :
    ∃ out, (plan.executor order child fuel).Yields out ∧
      (out.map Tuple.values).Perm (plan.expected child.outputSchema rows) ∧
      ∀ (σ' : Type) (order' : MapOrder (List UInt8) (List AggregateState)) (child' : Executor σ')
        (rows' : List Tuple) (fuel' : Nat), child'.outputSchema = child.outputSchema →
        child'.Yields rows' → rows'.length < fuel' → rows'.Perm rows →
        IntegerInput plan child.outputSchema rows' →
        ∃ out', (plan.executor order' child' fuel').Yields out' ∧
          (out'.map Tuple.values).Perm (out.map Tuple.values) := by
  obtain ⟨out, hyields, hperm⟩ := exists_yields_expected order hchild hfuel hin
  refine ⟨out, hyields, hperm, ?_⟩
  intro σ' order' child' rows' fuel' hschema hchild' hfuel' hrows hin'
  rw [← hschema] at hin'
  obtain ⟨out', hyields', hperm'⟩ := exists_yields_expected order' hchild' hfuel' hin'
  rw [hschema] at hperm'
  exact ⟨out', hyields', hperm'.trans ((expected_perm hrows).trans hperm.symm)⟩

/-- A sum for each value of a column. -/
def columnSums : AggregationPlan where
  outputSchema := ⟨[⟨"group_0", .integer, 0, 0⟩, ⟨"agg_0", .integer, 0, 0⟩]⟩
  groupBys := [.columnValue 0 0 .integer]
  aggregates := [(.sumAggregate, .columnValue 0 1 .integer)]

/-- A table with two INTEGER columns. -/
def twoIntegers : Schema := ⟨[⟨"a", .integer, 0, 0⟩, ⟨"b", .integer, 0, 0⟩]⟩

/-- Two groups, one with a negative value. -/
def signedRows : List Tuple :=
  [{ values := [.integer (-1), .integer 5] }, { values := [.integer 2, .integer 7] },
    { values := [.integer (-1), .integer 6] }]

theorem rowsWith_signedRows (values : List Value) :
    rowsWith (columnSums.groupValues twoIntegers) signedRows values =
      if values = [.integer (-1)] then
        [{ values := [.integer (-1), .integer 5] }, { values := [.integer (-1), .integer 6] }]
      else if values = [.integer 2] then [{ values := [.integer 2, .integer 7] }] else [] := by
  have h₁ : columnSums.groupValues twoIntegers { values := [.integer (-1), .integer 5] } =
      some [.integer (-1)] := rfl
  have h₂ : columnSums.groupValues twoIntegers { values := [.integer 2, .integer 7] } =
      some [.integer 2] := rfl
  have h₃ : columnSums.groupValues twoIntegers { values := [.integer (-1), .integer 6] } =
      some [.integer (-1)] := rfl
  by_cases hfirst : values = [.integer (-1)]
  · subst hfirst
    rfl
  · by_cases hsecond : values = [.integer 2]
    · subst hsecond
      rfl
    · rw [if_neg hfirst, if_neg hsecond]
      simp [rowsWith, signedRows, h₁, h₂, h₃, Ne.symm hfirst, Ne.symm hsecond]

/-- The sums of two groups. -/
theorem yields_perm_expected_groups : ∃ out,
    (columnSums.executor (.stored _ _) (listExecutor twoIntegers signedRows) 4).Yields out ∧
    (out.map Tuple.values).Perm [[.integer (-1), .integer 11], [.integer 2, .integer 7]] := by
  have hin : IntegerInput columnSums twoIntegers signedRows := by
    refine ⟨fun expr hexpr r hr => ?_, fun call hcall _ r hr => ?_, fun values call hcall => ?_⟩
    · obtain rfl := List.mem_singleton.mp hexpr
      simp only [signedRows, List.mem_cons, List.not_mem_nil, or_false] at hr
      rcases hr with rfl | rfl | rfl
      all_goals exact ⟨_, rfl, rfl⟩
    · obtain rfl := List.mem_singleton.mp hcall
      simp only [signedRows, List.mem_cons, List.not_mem_nil, or_false] at hr
      rcases hr with rfl | rfl | rfl
      all_goals exact ⟨_, rfl, rfl⟩
    · obtain rfl := List.mem_singleton.mp hcall
      intro n
      rw [rowsWith_signedRows]
      split
      · match n with
        | 0 => decide
        | 1 => decide
        | n + 2 =>
          rw [List.take_of_length_le (Nat.le_add_left 2 n)]
          decide
      · split
        · match n with
          | 0 => decide
          | n + 1 =>
            rw [List.take_of_length_le (Nat.le_add_left 1 n)]
            decide
        · rw [List.take_nil]
          decide
  obtain ⟨out, hyields, hperm, -⟩ :=
    yields_perm_expected (.stored _ _) (listExecutor_yields twoIntegers _) (Nat.lt_succ_self 3) hin
  have hexpected : columnSums.expected twoIntegers signedRows =
      [[.integer 2, .integer 7], [.integer (-1), .integer 11]] := by decide
  exact ⟨out, hyields, (hperm.trans (.of_eq hexpected)).trans (.swap _ _ _)⟩

/-- The count of all rows. -/
def rowCounts : AggregationPlan where
  outputSchema := ⟨[⟨"agg_0", .integer, 0, 0⟩]⟩
  groupBys := []
  aggregates := [(.countStarAggregate, .columnValue 0 0 .integer)]

/-- The loop overflows if there are more rows than fit. -/
theorem rowCounts_eq_none {rows : List Tuple} (h : 2 ^ 31 ≤ rows.length) :
    rows.foldlM (rowCounts.aggregateRow schema) ∅ = none := by
  refine groupRows_eq_none (k := noGroupKey) ?_
  have hall : rowsWith (rowCounts.groupKey schema) rows noGroupKey = rows :=
    List.filter_eq_self.mpr fun r _ => decide_eq_true rfl
  have hbody : ∀ r ∈ rows, ∀ state : AggregateState,
      AggregationType.countStarAggregate.update (Expr.evaluate (.columnValue 0 0 .integer) r schema)
        state = if (fun _ : Tuple => true) r then state.increment else some state :=
    fun _ _ _ => rfl
  have hlen : rows.countP (fun _ => true) = rows.length := by simp
  have hstate := foldState_count hbody
  rw [hlen, if_neg (Nat.not_lt.mpr h)] at hstate
  rw [hall]
  refine (foldStates_eq rowCounts.aggregates rows).trans ?_
  rw [rowCounts, List.mapM_cons, hstate]
  rfl

/-- **2³¹ rows cannot be counted.** -/
theorem count_overflows : ¬ ∃ fuel out, 2 ^ 31 < fuel ∧
    (rowCounts.executor (.stored _ _) (listExecutor ⟨[]⟩ (List.replicate (2 ^ 31) {}))
      fuel).Yields out := by
  rintro ⟨fuel, out, hfuel, hyields⟩
  have hlen : (List.replicate (2 ^ 31) ({} : Tuple)).length = 2 ^ 31 := List.length_replicate
  obtain ⟨groups, hgroups, -⟩ := of_yields (listExecutor_yields _ _) (by rw [hlen]; exact hfuel)
    ⟨[], [], 0⟩ hyields
  rw [rowCounts_eq_none (Nat.le_of_eq hlen.symm)] at hgroups
  cases hgroups

end AggregationPlan

end OneBase
