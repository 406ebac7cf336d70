import OneBase.Execution.Materialize
import OneBase.Lib.GroupFold
import OneBase.Lib.MapM

/-!
# The aggregation executor (`aggregation_executor.cpp`)

`Init` reads all rows of the child. The texts of the group-by values of a row, each
followed by `|`, are the key under which a map holds the states of the aggregates. The
group-by values of the output are read back from the key.

- `foldStates_eq`: the aggregates of a group are folded independently.
- `yields`: the executor yields a row for each entry of the map; without GROUP BY and
  without input it yields one row.
- `exists_yields`: it does so if no expression throws and no aggregate overflows.
-/

namespace OneBase

open Cpp

/-- The enumeration `AggregationType`. -/
inductive AggregationType where
  | countStarAggregate
  | countAggregate
  | sumAggregate
  | minAggregate
  | maxAggregate
  deriving DecidableEq

/-- Model of `AggregationPlanNode`. `agg_types_` and `aggregates_` have the same length,
so that one list has both. -/
structure AggregationPlan where
  outputSchema : Schema
  groupBys : List Expr
  aggregates : List (AggregationType × Expr)

/-- Model of `AggregateState`. -/
structure AggregateState where
  count : Int32 := 0
  sum : Value := .null .invalid
  min : Value := .null .invalid
  max : Value := .null .invalid
  hasValue : Bool := false

/-- The statement `state.count++`; signed overflow is undefined behaviour. -/
def AggregateState.increment (state : AggregateState) : Option AggregateState :=
  if IsInt32 (state.count.toInt + 1) then some { state with count := state.count + 1 } else none

/-- The update of a state with a row; `val` is the value of the expression, which
`COUNT(*)` does not evaluate. -/
def AggregationType.update (val : Option Value) (state : AggregateState) :
    AggregationType → Option AggregateState
  | countStarAggregate => state.increment
  | countAggregate => val.bind fun v => if v.isNull then some state else state.increment
  | sumAggregate => val.bind fun v =>
    if v.isNull then some state
    else if !state.hasValue then some { state with sum := v, hasValue := true }
    else (state.sum.add v).map fun sum => { state with sum }
  | minAggregate => val.bind fun v =>
    if v.isNull then some state
    else if !state.hasValue then some { state with min := v, hasValue := true }
    else ((v.compareLessThan state.min).bind Value.isTrue).map fun less =>
      if less then { state with min := v } else state
  | maxAggregate => val.bind fun v =>
    if v.isNull then some state
    else if !state.hasValue then some { state with max := v, hasValue := true }
    else ((v.compareGreaterThan state.max).bind Value.isTrue).map fun greater =>
      if greater then { state with max := v } else state

/-- The value that is output for a state. -/
def AggregationType.result (state : AggregateState) : AggregationType → Value
  | countStarAggregate => .integer state.count
  | countAggregate => .integer state.count
  | sumAggregate => if state.hasValue then state.sum else .null .integer
  | minAggregate => if state.hasValue then state.min else .null .integer
  | maxAggregate => if state.hasValue then state.max else .null .integer

/-- The loop over the aggregates for one row. -/
def updateStates (schema : Schema) (tuple : Tuple) :
    List (AggregationType × Expr) → List AggregateState → Option (List AggregateState)
  | (type, expr) :: calls, state :: states =>
    match type.update (expr.evaluate tuple schema) state,
      updateStates schema tuple calls states with
    | some state, some states => some (state :: states)
    | _, _ => none
  | _, _ => some []

/-! ## The key of a group -/

/-- The character `|`. -/
def keySeparator : UInt8 := 124

/-- The key without GROUP BY: `__no_group__`. -/
def noGroupKey : List UInt8 := [95, 95, 110, 111, 95, 103, 114, 111, 117, 112, 95, 95]

/-- The texts of the values, each followed by the separator. -/
def encodeKey (values : List Value) : List UInt8 :=
  values.flatMap fun v => v.toString ++ [keySeparator]

/-- `group_key.find('|', pos)`. -/
def findSeparator (key : List UInt8) (pos : Nat) : Option Nat :=
  ((key.drop pos).findIdx? fun c => c == keySeparator).map fun i => pos + i

/-- The value of a part of the key: NULL, a number or a string. -/
def partValue (part : List UInt8) : Value :=
  if part = [78, 85, 76, 76] then .null .integer
  else
    match stoi part with
    | some i => .integer (Int32.ofInt i)
    | none => .varchar part

/-- The loop over the GROUP BY expressions that reads their values back from the key.
Past the last separator the position wraps around to 0. -/
def decodeKey (key : List UInt8) : Nat → Nat → List Value
  | 0, _ => []
  | n + 1, pos =>
    match findSeparator key pos with
    | some nextPos => partValue ((key.drop pos).take (nextPos - pos)) ::
      decodeKey key n (nextPos + 1)
    | none => partValue (key.drop pos) :: decodeKey key n 0

/-! ## The executor -/

/-- The map from keys to states. -/
abbrev AggMap := UnorderedMap (List UInt8) (List AggregateState)

namespace AggregationPlan

variable (plan : AggregationPlan) (schema : Schema)

/-- The values of the GROUP BY expressions. -/
def groupValues (tuple : Tuple) : Option (List Value) :=
  plan.groupBys.mapM fun expr => expr.evaluate tuple schema

/-- The key of a row. -/
def groupKey (tuple : Tuple) : Option (List UInt8) :=
  if plan.groupBys = [] then some noGroupKey else (plan.groupValues schema tuple).map encodeKey

/-- The states of a new group. -/
def newStates : List AggregateState := List.replicate plan.aggregates.length {}

/-- The body of the loop: the states of the group of the row are updated, and are new
if there are none. -/
def aggregateRow : AggMap → Tuple → Option AggMap :=
  groupRow (plan.groupKey schema) plan.newStates
    fun states tuple => updateStates schema tuple plan.aggregates states

/-- The values that are output for an entry of the map. -/
def entryValues (entry : Σ _ : List UInt8, List AggregateState) : List Value :=
  decodeKey entry.1 plan.groupBys.length 0 ++
    List.zipWith (fun call state => call.1.result state) plan.aggregates entry.2

/-- The values that are output if there is neither GROUP BY nor input. -/
def emptyValues : List Value :=
  plan.aggregates.map fun call =>
    match call.1 with
    | .countStarAggregate => .integer 0
    | .countAggregate => .integer 0
    | _ => .null .integer

/-- The values of the output rows. -/
def outputValues (order : MapOrder (List UInt8) (List AggregateState)) (hasInput : Bool)
    (groups : AggMap) : List (List Value) :=
  if !hasInput && plan.groupBys.isEmpty then [plan.emptyValues]
  else (order.entries groups).map plan.entryValues

/-- The executor; its loop gets the fuel. -/
def executor {σ : Type} (order : MapOrder (List UInt8) (List AggregateState))
    (child : Executor σ) (fuel : Nat) : Executor (Materialized σ) :=
  Materialized.executor child
    (fun (acc : Bool × AggMap) tuple =>
      (plan.aggregateRow child.outputSchema acc.2 tuple).map fun groups => (true, groups))
    (false, ∅) (fun acc => (plan.outputValues order acc.1 acc.2).mapM Tuple.ofValues)
    fuel plan.outputSchema

/-! ## What the executor yields -/

variable {plan schema}

/-- The flag and the map are folded independently. -/
theorem foldlM_flag {A : Type} (body : A → Tuple → Option A) (rows : List Tuple) :
    ∀ (flag : Bool) (acc : A),
      rows.foldlM (fun acc tuple => (body acc.2 tuple).map fun a => (true, a)) (flag, acc) =
        (rows.foldlM body acc).map fun a => (flag || !rows.isEmpty, a) := by
  induction rows with
  | nil =>
    intro flag acc
    simp
  | cons tuple rows ih =>
    intro flag acc
    rw [List.foldlM_cons, List.foldlM_cons]
    cases body acc tuple with
    | none => rfl
    | some acc' =>
      refine (ih true acc').trans ?_
      simp

/-- **The rows of the output** are those of the entries of the map. -/
theorem yields {σ : Type} {order : MapOrder (List UInt8) (List AggregateState)}
    {child : Executor σ} {rows out : List Tuple} {groups : AggMap} (hchild : child.Yields rows)
    {fuel : Nat} (hfuel : rows.length < fuel)
    (hgroups : rows.foldlM (plan.aggregateRow child.outputSchema) ∅ = some groups)
    (hout : (plan.outputValues order (!rows.isEmpty) groups).mapM Tuple.ofValues = some out) :
    (plan.executor order child fuel).Yields out := by
  refine Materialized.yields hchild hfuel _ ?_
  rw [foldlM_flag (plan.aggregateRow child.outputSchema), hgroups, Bool.false_or]
  exact hout

theorem values_of_mapM_ofValues {lists : List (List Value)} {out : List Tuple}
    (h : lists.mapM Tuple.ofValues = some out) : out.map Tuple.values = lists := by
  have hout := mapM_eq_some_iff.mp h
  clear h
  induction hout with
  | nil => rfl
  | cons htuple _ ih =>
    obtain ⟨data, -, rfl⟩ := Option.map_eq_some_iff.mp htuple
    rw [List.map_cons, ih]

/-- The executor yields nothing else. -/
theorem of_yields {σ : Type} {order : MapOrder (List UInt8) (List AggregateState)}
    {child : Executor σ} {rows out : List Tuple} (hchild : child.Yields rows) {fuel : Nat}
    (hfuel : rows.length < fuel) (st : Materialized σ)
    (hout : (plan.executor order child fuel).Yields out) :
    ∃ groups, rows.foldlM (plan.aggregateRow child.outputSchema) ∅ = some groups ∧
      out.map Tuple.values = plan.outputValues order (!rows.isEmpty) groups := by
  have heq := Materialized.eq_of_yields hchild hfuel st hout
  rw [foldlM_flag (plan.aggregateRow child.outputSchema)] at heq
  cases hgroups : rows.foldlM (plan.aggregateRow child.outputSchema) ∅ with
  | none =>
    rw [hgroups] at heq
    cases heq
  | some groups =>
    rw [hgroups] at heq
    exact ⟨groups, rfl, values_of_mapM_ofValues heq⟩

/-! ## The aggregates of a group -/

/-- The state of one aggregate after some rows of a group. -/
def foldState (schema : Schema) (call : AggregationType × Expr) (state : AggregateState)
    (rows : List Tuple) : Option AggregateState :=
  rows.foldlM (fun state tuple => call.1.update (call.2.evaluate tuple schema) state) state

/-- The states of all aggregates after some rows of a group. -/
def foldStates (schema : Schema) (calls : List (AggregationType × Expr))
    (states : List AggregateState) (rows : List Tuple) : Option (List AggregateState) :=
  rows.foldlM (fun states tuple => updateStates schema tuple calls states) states

theorem foldStates_cons (call : AggregationType × Expr) (calls : List (AggregationType × Expr))
    (rows : List Tuple) :
    ∀ (state : AggregateState) (states : List AggregateState),
      foldStates schema (call :: calls) (state :: states) rows =
        (foldState schema call state rows).bind fun state =>
          (foldStates schema calls states rows).map fun states => state :: states := by
  induction rows with
  | nil => exact fun _ _ => rfl
  | cons tuple rows ih =>
    intro state states
    rw [foldStates, foldState, foldStates, List.foldlM_cons, List.foldlM_cons, List.foldlM_cons,
      updateStates]
    cases call.1.update (call.2.evaluate tuple schema) state with
    | none => rfl
    | some state' =>
      cases updateStates schema tuple calls states with
      | none =>
        refine Eq.symm (Option.bind_eq_none_iff.mpr fun _ _ => rfl)
      | some states' => exact ih state' states'

/-- **Each aggregate is folded over the rows of the group** by itself. -/
theorem foldStates_eq (calls : List (AggregationType × Expr)) (rows : List Tuple) :
    foldStates schema calls (List.replicate calls.length {}) rows =
      calls.mapM fun call => foldState schema call {} rows := by
  induction calls with
  | nil =>
    induction rows with
    | nil => rfl
    | cons tuple rows ih => exact ih
  | cons call calls ih =>
    rw [List.length_cons, List.replicate_succ, foldStates_cons, ih, List.mapM_cons]
    cases foldState schema call {} rows with
    | none => rfl
    | some state => cases calls.mapM fun call => foldState schema call {} rows <;> rfl

/-! ## The bytes of the output -/

/-- Arithmetic does not return NULL. -/
theorem isNull_add {v o w : Value} (h : v.add o = some w) : w.isNull = false := by
  rw [Value.add, Value.arithmeticWith] at h
  split at h
  · cases h
  · split at h
    · obtain ⟨i, -, h⟩ := Option.bind_eq_some_iff.mp h
      rw [Value.ofExact] at h
      split at h
      · cases h
        rfl
      · cases h
    · obtain ⟨op, -, h⟩ := Option.bind_eq_some_iff.mp h
      obtain ⟨a, -, h⟩ := Option.bind_eq_some_iff.mp h
      obtain ⟨b, -, rfl⟩ := Option.map_eq_some_iff.mp h
      rfl
    · cases h

/-- A value that is not NULL, or a NULL of type INTEGER: the values of the output. -/
def Outputs (v : Value) : Prop := v.isNull = false ∨ v = .null .integer

theorem Outputs.exists_serialize {v : Value} (h : Outputs v) :
    ∃ bytes, v.serialize = some bytes := by
  rcases h with h | rfl
  · exact Value.exists_serialize h
  · exact ⟨_, rfl⟩

/-- **An update** leaves a value that can be output: the one before it, the row's or a
sum. -/
theorem update_outputs {type : AggregationType} {val : Option Value} {state state' : AggregateState}
    (hstate : Outputs (type.result state)) (h : type.update val state = some state') :
    Outputs (type.result state') := by
  cases type with
  | countStarAggregate => exact .inl rfl
  | countAggregate => exact .inl rfl
  | sumAggregate =>
    obtain ⟨v, -, h⟩ := Option.bind_eq_some_iff.mp h
    split at h
    · obtain rfl := Option.some.inj h
      exact hstate
    · rename_i hv
      have hnull : v.isNull = false := by simpa using hv
      split at h
      · obtain rfl := Option.some.inj h
        exact .inl hnull
      · rename_i hhas
        obtain ⟨sum, hsum, rfl⟩ := Option.map_eq_some_iff.mp h
        have hhas' : state.hasValue = true := by simpa using hhas
        exact .inl (by simpa [AggregationType.result, hhas'] using isNull_add hsum)
  | minAggregate =>
    obtain ⟨v, -, h⟩ := Option.bind_eq_some_iff.mp h
    split at h
    · obtain rfl := Option.some.inj h
      exact hstate
    · rename_i hv
      have hnull : v.isNull = false := by simpa using hv
      split at h
      · obtain rfl := Option.some.inj h
        exact .inl hnull
      · rename_i hhas
        obtain ⟨less, -, rfl⟩ := Option.map_eq_some_iff.mp h
        have hhas' : state.hasValue = true := by simpa using hhas
        cases less with
        | false => exact hstate
        | true => exact .inl (by simpa [AggregationType.result, hhas'] using hnull)
  | maxAggregate =>
    obtain ⟨v, -, h⟩ := Option.bind_eq_some_iff.mp h
    split at h
    · obtain rfl := Option.some.inj h
      exact hstate
    · rename_i hv
      have hnull : v.isNull = false := by simpa using hv
      split at h
      · obtain rfl := Option.some.inj h
        exact .inl hnull
      · rename_i hhas
        obtain ⟨greater, -, rfl⟩ := Option.map_eq_some_iff.mp h
        have hhas' : state.hasValue = true := by simpa using hhas
        cases greater with
        | false => exact hstate
        | true => exact .inl (by simpa [AggregationType.result, hhas'] using hnull)

/-- The state of an aggregate of a group can be output. -/
theorem foldState_outputs {call : AggregationType × Expr} {rows : List Tuple} :
    ∀ {state state' : AggregateState}, Outputs (call.1.result state) →
      foldState schema call state rows = some state' → Outputs (call.1.result state') := by
  induction rows with
  | nil =>
    intro state state' hstate h
    obtain rfl := Option.some.inj h
    exact hstate
  | cons tuple rows ih =>
    intro state state' hstate h
    rw [foldState, List.foldlM_cons] at h
    obtain ⟨state₁, hupdate, hrest⟩ := Option.bind_eq_some_iff.mp h
    exact ih (update_outputs hstate hupdate) hrest

theorem result_new (type : AggregationType) : Outputs (type.result {}) := by
  cases type with
  | countStarAggregate => exact .inl rfl
  | countAggregate => exact .inl rfl
  | sumAggregate => exact .inr rfl
  | minAggregate => exact .inr rfl
  | maxAggregate => exact .inr rfl

theorem partValue_outputs (part : List UInt8) : Outputs (partValue part) := by
  rw [partValue]
  split
  · exact .inr rfl
  · split
    · exact .inl rfl
    · exact .inl rfl

theorem decodeKey_outputs (key : List UInt8) :
    ∀ n pos, ∀ v ∈ decodeKey key n pos, Outputs v := by
  intro n
  induction n with
  | zero => exact fun _ v h => absurd h List.not_mem_nil
  | succ n ih =>
    intro pos v h
    rw [decodeKey] at h
    split at h
    · rcases List.mem_cons.mp h with rfl | h
      · exact partValue_outputs _
      · exact ih _ v h
    · rcases List.mem_cons.mp h with rfl | h
      · exact partValue_outputs _
      · exact ih _ v h

theorem zipWith_outputs {calls : List (AggregationType × Expr)} {rows : List Tuple}
    {states : List AggregateState}
    (h : calls.mapM (fun call => foldState schema call {} rows) = some states) :
    ∀ v ∈ List.zipWith (fun call state => call.1.result state) calls states, Outputs v := by
  intro v hv
  obtain ⟨call, -, hcall⟩ := exists_of_mem_mapM (mapM_zipWith h) hv
  obtain ⟨state, hstate, rfl⟩ := Option.map_eq_some_iff.mp hcall
  exact foldState_outputs (result_new call.1) hstate

theorem emptyValues_outputs (plan : AggregationPlan) : ∀ v ∈ plan.emptyValues, Outputs v := by
  intro v hv
  obtain ⟨⟨type, expr⟩, -, rfl⟩ := List.mem_map.mp hv
  cases type with
  | countStarAggregate => exact .inl rfl
  | countAggregate => exact .inl rfl
  | sumAggregate => exact .inr rfl
  | minAggregate => exact .inr rfl
  | maxAggregate => exact .inr rfl

/-- A row of such values has bytes. -/
theorem exists_ofValues {values : List Value} (h : ∀ v ∈ values, Outputs v) :
    ∃ tuple, Tuple.ofValues values = some tuple := by
  have hdata : ∃ data, Tuple.serializeAll values = some data := by
    induction values with
    | nil => exact ⟨[], rfl⟩
    | cons v values ih =>
      obtain ⟨bytes, hbytes⟩ := (h v List.mem_cons_self).exists_serialize
      obtain ⟨rest, hrest⟩ := ih fun w hw => h w (List.mem_cons_of_mem _ hw)
      exact ⟨bytes ++ rest, by rw [Tuple.serializeAll, hbytes, hrest]⟩
  obtain ⟨data, hdata⟩ := hdata
  exact ⟨{ data, values }, by rw [Tuple.ofValues, hdata]; rfl⟩

/-- The executor yields the output, if the loop over the rows of the child fills the map. -/
theorem exists_yields_of_groups {σ : Type} (order : MapOrder (List UInt8) (List AggregateState))
    {child : Executor σ} {rows : List Tuple} (hchild : child.Yields rows) {fuel : Nat}
    (hfuel : rows.length < fuel) {groups : AggMap}
    (hgroups : rows.foldlM (plan.aggregateRow child.outputSchema) ∅ = some groups) :
    ∃ out, (plan.executor order child fuel).Yields out ∧
      out.map Tuple.values = plan.outputValues order (!rows.isEmpty) groups := by
  have houtputs : ∀ values ∈ plan.outputValues order (!rows.isEmpty) groups, ∀ v ∈ values,
      Outputs v := by
    rw [outputValues]
    split
    · intro values hvalues
      obtain rfl := List.mem_singleton.mp hvalues
      exact emptyValues_outputs plan
    · intro values hvalues v hv
      obtain ⟨entry, hentry, rfl⟩ := List.mem_map.mp hvalues
      have hlookup : groups.lookup entry.1 = some entry.2 :=
        AList.mem_lookup_iff.mpr ((order.perm groups).mem_iff.mp hentry)
      have hfold := (groupRows_lookup hgroups entry.1).1
      rw [AList.lookup_empty, Option.getD_none, hlookup, Option.getD_some] at hfold
      have hmapM := (@foldStates_eq child.outputSchema plan.aggregates _).symm.trans hfold
      rcases List.mem_append.mp hv with hv | hv
      · exact decodeKey_outputs _ _ _ v hv
      · exact zipWith_outputs hmapM v hv
  obtain ⟨out, hout⟩ := exists_mapM fun values hmem => exists_ofValues (houtputs values hmem)
  exact ⟨out, yields hchild hfuel hgroups hout, values_of_mapM_ofValues hout⟩

/-- **The executor yields the output**, if no expression throws and no aggregate
overflows. -/
theorem exists_yields {σ : Type} {order : MapOrder (List UInt8) (List AggregateState)}
    {child : Executor σ} {rows : List Tuple} (hchild : child.Yields rows) {fuel : Nat}
    (hfuel : rows.length < fuel)
    (hkeys : ∀ r ∈ rows, (plan.groupKey child.outputSchema r).isSome)
    (hstates : ∀ key, (foldStates child.outputSchema plan.aggregates plan.newStates
      (rowsWith (plan.groupKey child.outputSchema) rows key)).isSome) :
    ∃ groups out, rows.foldlM (plan.aggregateRow child.outputSchema) ∅ = some groups ∧
      (plan.executor order child fuel).Yields out ∧
      out.map Tuple.values = plan.outputValues order (!rows.isEmpty) groups := by
  obtain ⟨groups, hgroups⟩ := @groupRows_isSome _ _ _ _ _ plan.newStates
    (fun states tuple => updateStates child.outputSchema tuple plan.aggregates states) _ hkeys
    (∅ : AggMap) hstates
  obtain ⟨out, hyields, hvalues⟩ := exists_yields_of_groups order hchild hfuel hgroups
  exact ⟨groups, out, hgroups, hyields, hvalues⟩

end AggregationPlan

end OneBase
