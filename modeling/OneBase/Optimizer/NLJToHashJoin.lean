import Mathlib.Data.Multiset.Bind
import OneBase.Execution.Joins
import OneBase.Lib.MapM

/-!
# From a nested loop join to a hash join (`optimizer.cpp`)

`OptimizeNLJToHashJoin` replaces a join on an equality of two columns by a hash join
on these columns, whichever side of the equality stands left. The hash join compares
the texts of the keys, which differ for different keys of one type.

- `rightMajor_perm_leftMajor`: the two orders of the pairs.
- `joinSelects_equates`: the predicate holds of a pair if the texts are equal.
- `hashJoin_perm_nestedLoopJoin`: the two executors yield the same rows.
-/

namespace OneBase

/-- The plan nodes of the two joins, over the plans of their children. -/
inductive JoinNode (P : Type) where
  | nestedLoopJoin (outputSchema : Schema) (left right : P) (predicate : Option Expr)
  | hashJoin (outputSchema : Schema) (left right : P) (leftKeyExpr rightKeyExpr : Expr)

/-- Model of `OptimizeNLJToHashJoin`. -/
def optimizeNLJToHashJoin {P : Type} : JoinNode P → JoinNode P
  | .nestedLoopJoin outputSchema left right
      (some (.comparison (.columnValue leftIdx leftCol leftType)
      (.columnValue rightIdx rightCol rightType) .equal)) =>
    if leftIdx = 0 ∧ rightIdx = 1 then
      .hashJoin outputSchema left right (.columnValue 0 leftCol leftType)
        (.columnValue 0 rightCol rightType)
    else if leftIdx = 1 ∧ rightIdx = 0 then
      .hashJoin outputSchema left right (.columnValue 0 rightCol rightType)
        (.columnValue 0 leftCol leftType)
    else
      .nestedLoopJoin outputSchema left right (some (.comparison
        (.columnValue leftIdx leftCol leftType) (.columnValue rightIdx rightCol rightType) .equal))
  | node => node

/-- A predicate that equates a column of the left row with one of the right row, in
either order. -/
def EquatesColumns (predicate : Expr) (leftCol rightCol : Nat) : Prop :=
  ∃ leftType rightType,
    predicate = .comparison (.columnValue 0 leftCol leftType) (.columnValue 1 rightCol rightType)
      .equal ∨
    predicate = .comparison (.columnValue 1 rightCol rightType) (.columnValue 0 leftCol leftType)
      .equal

/-- The rows have values for all columns, and these can be stored in a tuple. -/
def Readable (schema : Schema) (rows : List Tuple) : Prop :=
  ∀ tuple ∈ rows, ∃ values data, tuple.getValues schema = some values ∧
    Tuple.serializeAll values = some data

/-- The rows have a value of the type in the column. -/
def KeyColumn (schema : Schema) (col : Nat) (type : TypeId) (rows : List Tuple) : Prop :=
  ∀ tuple ∈ rows, ∃ v, tuple.getValue schema col = some v ∧ v.isNull = false ∧ v.getTypeId = type

/-! ## The order of the pairs -/

/-- The selected elements, each as a list of at most one. -/
theorem map_filter_eq_flatMap {α β : Type} (p : α → Bool) (f : α → β) (l : List α) :
    (l.filter p).map f = l.flatMap fun a => if p a then [f a] else [] := by
  induction l with
  | nil => rfl
  | cons a l ih => by_cases h : p a <;> simp [h, ih]

/-- **The pairs by right rows are the pairs by left rows in another order.** -/
theorem rightMajor_perm_leftMajor (sel : Tuple → Tuple → Bool) (L R : List Tuple) :
    (rightMajor sel L R).Perm (leftMajor sel L R) := by
  let pair (r l : Tuple) : List (Tuple × Tuple) := if sel l r then [(l, r)] else []
  have hleft : leftMajor sel L R = L.flatMap fun l => R.flatMap fun r => pair r l :=
    List.flatMap_congr fun l _ => map_filter_eq_flatMap _ _ _
  have hright : rightMajor sel L R = R.flatMap fun r => L.flatMap fun l => pair r l :=
    List.flatMap_congr fun r _ => map_filter_eq_flatMap _ _ _
  have hswap := Multiset.bind_bind (R : Multiset Tuple) (L : Multiset Tuple)
    (f := fun r l => (pair r l : Multiset (Tuple × Tuple)))
  simp only [Multiset.coe_bind] at hswap
  rw [hleft, hright]
  exact Multiset.coe_eq_coe.mp hswap

theorem mem_leftMajor {sel : Tuple → Tuple → Bool} {L R : List Tuple} {p : Tuple × Tuple}
    (h : p ∈ leftMajor sel L R) : p.1 ∈ L ∧ p.2 ∈ R := by
  obtain ⟨l, hl, hp⟩ := List.mem_flatMap.mp h
  obtain ⟨r, hr, rfl⟩ := List.mem_map.mp hp
  exact ⟨hl, (List.mem_filter.mp hr).1⟩

/-! ## Rows and keys -/

/-- Two readable rows make a tuple. -/
theorem exists_joinRow {leftSchema rightSchema : Schema} {L R : List Tuple}
    (hL : Readable leftSchema L) (hR : Readable rightSchema R) {l r : Tuple} (hl : l ∈ L)
    (hr : r ∈ R) : ∃ tuple, joinRow leftSchema rightSchema l r = some tuple := by
  obtain ⟨lvalues, ldata, hlvalues, hldata⟩ := hL l hl
  obtain ⟨rvalues, rdata, hrvalues, hrdata⟩ := hR r hr
  have hdata := Tuple.serializeAll_append hldata hrdata
  simp [joinRow, hlvalues, hrvalues, Tuple.ofValues, hdata]

/-- Two values of one type are compared by their texts. -/
theorem compareEquals_eq {v w : Value} {type : TypeId}
    (htype : type = .integer ∨ type = .boolean ∨ type = .varchar) (hv : v.isNull = false)
    (hw : w.isNull = false) (hvt : v.getTypeId = type) (hwt : w.getTypeId = type) :
    v.compareEquals w = some (.boolean (decide (v.toString = w.toString))) := by
  have hfloat : v.getTypeId ≠ .float := by
    intro h
    rw [hvt] at h
    subst h
    rcases htype with h | h | h <;> cases h
  have hiff : v.toString = w.toString ↔ v = w :=
    ⟨Value.toString_injective hv hw (hvt.trans hwt.symm) hfloat, fun h => h ▸ rfl⟩
  have heq : v.compareEquals w = some (.boolean (decide (v = w))) := by
    subst hvt
    cases v with
    | null => cases hv
    | float => exact absurd rfl hfloat
    | boolean b =>
      cases w with
      | boolean c => simp [Value.compareEquals, Value.compareWith, Value.getTypeId,
          Value.getAsBoolean, Bool.beq_eq_decide_eq]
      | null => cases hw
      | integer => cases hwt
      | float => cases hwt
      | varchar => cases hwt
    | integer i =>
      cases w with
      | integer j => simp [Value.compareEquals, Value.compareWith, Value.getTypeId, beq_eq_decide]
      | null => cases hw
      | boolean => cases hwt
      | float => cases hwt
      | varchar => cases hwt
    | varchar s =>
      cases w with
      | varchar t => simp [Value.compareEquals, Value.compareWith, Value.getTypeId,
          Value.getAsString, beq_eq_decide]
      | null => cases hw
      | boolean => cases hwt
      | integer => cases hwt
      | float => cases hwt
  rw [heq, decide_eq_decide.mpr hiff]

/-- The predicate gives what the comparison of the keys gives, from either side. -/
theorem EquatesColumns.selects {leftSchema rightSchema : Schema} {predicate : Expr}
    {leftCol rightCol : Nat} (hpred : EquatesColumns predicate leftCol rightCol) {l r : Tuple}
    {v w : Value} {b : Bool} (hl : l.getValue leftSchema leftCol = some v)
    (hr : r.getValue rightSchema rightCol = some w)
    (hvw : v.compareEquals w = some (.boolean b)) (hwv : w.compareEquals v = some (.boolean b)) :
    predicate.evaluateJoin l leftSchema r rightSchema = some (.boolean b) ∧
      joinSelects (some predicate) leftSchema rightSchema l r = some b := by
  have heval : predicate.evaluateJoin l leftSchema r rightSchema = some (.boolean b) := by
    obtain ⟨leftType, rightType, rfl | rfl⟩ := hpred
    · simp [Expr.evaluateJoin, Expr.evaluateWith, hl, hr, ComparisonType.perform, hvw]
    · simp [Expr.evaluateJoin, Expr.evaluateWith, hl, hr, ComparisonType.perform, hwv]
  exact ⟨heval, by simp [joinSelects, heval, Value.isNull, Value.getAsBoolean]⟩

/-- **The predicate holds of a pair** if the keys of the two rows have the same text. -/
theorem joinSelects_equates {leftSchema rightSchema : Schema} {predicate : Expr}
    {leftCol rightCol : Nat} (hpred : EquatesColumns predicate leftCol rightCol) {type : TypeId}
    (htype : type = .integer ∨ type = .boolean ∨ type = .varchar) {l r : Tuple} {v w : Value}
    (hl : l.getValue leftSchema leftCol = some v) (hr : r.getValue rightSchema rightCol = some w)
    (hv : v.isNull = false ∧ v.getTypeId = type) (hw : w.isNull = false ∧ w.getTypeId = type) :
    predicate.evaluateJoin l leftSchema r rightSchema =
        some (.boolean (decide (v.toString = w.toString))) ∧
      joinSelects (some predicate) leftSchema rightSchema l r =
        some (decide (v.toString = w.toString)) := by
  have hvw := compareEquals_eq htype hv.1 hw.1 hv.2 hw.2
  have hwv := compareEquals_eq htype hw.1 hv.1 hw.2 hv.2
  rw [decide_eq_decide.mpr eq_comm] at hwv
  exact hpred.selects hl hr hvw hwv

/-! ## The two plans -/

/-- Whether a pair satisfies the predicate. -/
def satisfies (predicate : Expr) (leftSchema rightSchema : Schema) (l r : Tuple) : Bool :=
  decide (predicate.evaluateJoin l leftSchema r rightSchema = some (.boolean true))

/-- The rule recognises the predicate, and takes the columns as the keys. -/
theorem EquatesColumns.optimize {P : Type} {predicate : Expr} {leftCol rightCol : Nat}
    (hpred : EquatesColumns predicate leftCol rightCol) (outputSchema : Schema) (left right : P) :
    ∃ leftType rightType,
      optimizeNLJToHashJoin (.nestedLoopJoin outputSchema left right (some predicate)) =
        .hashJoin outputSchema left right (.columnValue 0 leftCol leftType)
          (.columnValue 0 rightCol rightType) := by
  obtain ⟨leftType, rightType, rfl | rfl⟩ := hpred
  · exact ⟨leftType, rightType, rfl⟩
  · exact ⟨leftType, rightType, rfl⟩

/-- **What the two plans yield**: the nested loop join yields the pairs that the predicate
selects, the hash join those whose keys have the same text. -/
theorem EquatesColumns.yields {σL σR P : Type} {left : Executor σL} {right : Executor σR}
    {L R : List Tuple} {row : Tuple × Tuple → Tuple} (hin : JoinInput left right L R row)
    {predicate : Expr} {leftCol rightCol : Nat}
    (hpred : EquatesColumns predicate leftCol rightCol) {leftKey rightKey : Tuple → Value}
    (hleftKey : ∀ l ∈ L, l.getValue left.outputSchema leftCol = some (leftKey l))
    (hrightKey : ∀ r ∈ R, r.getValue right.outputSchema rightCol = some (rightKey r))
    {sel : Tuple → Tuple → Bool}
    (hsel : ∀ l ∈ L, ∀ r ∈ R,
      joinSelects (some predicate) left.outputSchema right.outputSchema l r =
      some (sel l r)) (outputSchema : Schema) (leftPlan rightPlan : P) :
    ∃ leftKeyExpr rightKeyExpr n,
      optimizeNLJToHashJoin
          (.nestedLoopJoin outputSchema leftPlan rightPlan (some predicate)) =
        .hashJoin outputSchema leftPlan rightPlan leftKeyExpr rightKeyExpr ∧
      ∀ fuel ≥ n,
        (NestedLoopJoin.executor left right (some predicate) fuel outputSchema).Yields
          ((leftMajor sel L R).map row) ∧
        (HashJoin.executor left right leftKeyExpr rightKeyExpr fuel outputSchema).Yields
          ((rightMajor (fun l r => decide ((leftKey l).toString = (rightKey r).toString)) L R).map
            row) := by
  obtain ⟨leftType, rightType, hoptimize⟩ := hpred.optimize outputSchema leftPlan rightPlan
  have hleft : ∀ l ∈ L, HashJoin.keyText (.columnValue 0 leftCol leftType) left.outputSchema l =
      some (leftKey l).toString := by
    intro l hl
    simp [HashJoin.keyText, Expr.evaluate, Expr.evaluateWith, hleftKey l hl]
  have hright : ∀ r ∈ R,
      HashJoin.keyText (.columnValue 0 rightCol rightType) right.outputSchema r =
        some (rightKey r).toString := by
    intro r hr
    simp [HashJoin.keyText, Expr.evaluate, Expr.evaluateWith, hrightKey r hr]
  refine ⟨_, _, L.length * (R.length + 2) + R.length + 2, hoptimize, fun fuel hfuel => ⟨?_, ?_⟩⟩
  · exact NestedLoopJoin.yields hin hsel (by omega) _
  · refine HashJoin.yields hin hleft hright ?_ (by omega) _
    have hle : L.length * 1 ≤ L.length * (R.length + 2) := Nat.mul_le_mul_left _ (by omega)
    omega

/-- The rows of the children, with the tuple of each pair. -/
theorem joinInput_of_readable {σL σR : Type} {left : Executor σL} {right : Executor σR}
    {L R : List Tuple} (hleft : left.Yields L) (hright : right.Yields R)
    (hreadL : Readable left.outputSchema L) (hreadR : Readable right.outputSchema R) :
    JoinInput left right L R fun p =>
      (joinRow left.outputSchema right.outputSchema p.1 p.2).getD {} := by
  refine ⟨hleft, hright, fun l hl r hr => ?_⟩
  obtain ⟨tuple, htuple⟩ := exists_joinRow hreadL hreadR hl hr
  simp [htuple]

/-- **The hash join yields the rows of the nested loop join**, which are the pairs that
satisfy the predicate, by left rows. -/
theorem hashJoin_perm_nestedLoopJoin {σL σR P : Type} {left : Executor σL} {right : Executor σR}
    {L R : List Tuple} (hleft : left.Yields L) (hright : right.Yields R)
    (hreadL : Readable left.outputSchema L) (hreadR : Readable right.outputSchema R)
    {predicate : Expr} {leftCol rightCol : Nat}
    (hpred : EquatesColumns predicate leftCol rightCol) {type : TypeId}
    (htype : type = .integer ∨ type = .boolean ∨ type = .varchar)
    (hkeyL : KeyColumn left.outputSchema leftCol type L)
    (hkeyR : KeyColumn right.outputSchema rightCol type R)
    (outputSchema : Schema) (leftPlan rightPlan : P) :
    ∃ leftKeyExpr rightKeyExpr rows rows' n,
      optimizeNLJToHashJoin
          (.nestedLoopJoin outputSchema leftPlan rightPlan (some predicate)) =
        .hashJoin outputSchema leftPlan rightPlan leftKeyExpr rightKeyExpr ∧
      (leftMajor (satisfies predicate left.outputSchema right.outputSchema) L R).mapM
        (fun p => joinRow left.outputSchema right.outputSchema p.1 p.2) = some rows ∧
      rows'.Perm rows ∧
      ∀ fuel ≥ n,
        (NestedLoopJoin.executor left right (some predicate) fuel outputSchema).Yields rows ∧
        (HashJoin.executor left right leftKeyExpr rightKeyExpr fuel outputSchema).Yields rows' := by
  have hin := joinInput_of_readable hleft hright hreadL hreadR
  let leftKey (l : Tuple) : Value := (l.getValue left.outputSchema leftCol).getD (.null .invalid)
  let rightKey (r : Tuple) : Value := (r.getValue right.outputSchema rightCol).getD (.null .invalid)
  let sel (l r : Tuple) : Bool := decide ((leftKey l).toString = (rightKey r).toString)
  have hleftKey : ∀ l ∈ L, l.getValue left.outputSchema leftCol = some (leftKey l) := by
    intro l hl
    obtain ⟨v, hv, -⟩ := hkeyL l hl
    simp [leftKey, hv]
  have hrightKey : ∀ r ∈ R, r.getValue right.outputSchema rightCol = some (rightKey r) := by
    intro r hr
    obtain ⟨w, hw, -⟩ := hkeyR r hr
    simp [rightKey, hw]
  have hselects : ∀ l ∈ L, ∀ r ∈ R,
      predicate.evaluateJoin l left.outputSchema r right.outputSchema =
        some (.boolean (sel l r)) ∧
      joinSelects (some predicate) left.outputSchema right.outputSchema l r = some (sel l r) := by
    intro l hl r hr
    obtain ⟨v, hv, hv'⟩ := hkeyL l hl
    obtain ⟨w, hw, hw'⟩ := hkeyR r hr
    have hboth := joinSelects_equates hpred htype hv hw hv' hw'
    simpa [sel, leftKey, rightKey, hv, hw] using hboth
  have hpairs : leftMajor (satisfies predicate left.outputSchema right.outputSchema) L R =
      leftMajor sel L R := by
    refine List.flatMap_congr fun l hl => ?_
    refine congrArg _ (List.filter_congr fun r hr => ?_)
    simp [satisfies, (hselects l hl r hr).1]
  obtain ⟨leftKeyExpr, rightKeyExpr, n, hoptimize, hyields⟩ :=
    hpred.yields hin hleftKey hrightKey (fun l hl r hr => (hselects l hl r hr).2) outputSchema
      leftPlan rightPlan
  refine ⟨leftKeyExpr, rightKeyExpr, _, _, n, hoptimize, ?_,
    (rightMajor_perm_leftMajor sel L R).map _, hyields⟩
  rw [hpairs]
  exact Cpp.mapM_eq_some_map fun p hp => hin.joins _ (mem_leftMajor hp).1 _ (mem_leftMajor hp).2

/-- A row 7 and rows 7 and 8, equated from right to left. -/
theorem hashJoin_perm_nestedLoopJoin_rows :
    ∃ leftKeyExpr rightKeyExpr rows rows' n,
      optimizeNLJToHashJoin (.nestedLoopJoin ⟨[]⟩ () () (some (.comparison
        (.columnValue 1 0 .integer) (.columnValue 0 0 .integer) .equal))) =
        .hashJoin ⟨[]⟩ () () leftKeyExpr rightKeyExpr ∧
      (leftMajor (satisfies (.comparison (.columnValue 1 0 .integer)
        (.columnValue 0 0 .integer) .equal) ⟨[⟨"a", .integer, 0, 0⟩]⟩ ⟨[⟨"b", .integer, 0, 0⟩]⟩)
        [{ values := [.integer 7] }] [{ values := [.integer 7] }, { values := [.integer 8] }]).mapM
        (fun p => joinRow ⟨[⟨"a", .integer, 0, 0⟩]⟩ ⟨[⟨"b", .integer, 0, 0⟩]⟩ p.1 p.2) =
        some rows ∧
      rows'.Perm rows ∧
      ∀ fuel ≥ n,
        (NestedLoopJoin.executor
          (listExecutor ⟨[⟨"a", .integer, 0, 0⟩]⟩ [{ values := [.integer 7] }])
          (listExecutor ⟨[⟨"b", .integer, 0, 0⟩]⟩
            [{ values := [.integer 7] }, { values := [.integer 8] }])
          (some (.comparison (.columnValue 1 0 .integer) (.columnValue 0 0 .integer) .equal))
          fuel ⟨[]⟩).Yields rows ∧
        (HashJoin.executor
          (listExecutor ⟨[⟨"a", .integer, 0, 0⟩]⟩ [{ values := [.integer 7] }])
          (listExecutor ⟨[⟨"b", .integer, 0, 0⟩]⟩
            [{ values := [.integer 7] }, { values := [.integer 8] }])
          leftKeyExpr rightKeyExpr fuel ⟨[]⟩).Yields rows' := by
  refine hashJoin_perm_nestedLoopJoin (listExecutor_yields _ _) (listExecutor_yields _ _) ?_ ?_
    ⟨.integer, .integer, .inr rfl⟩ (.inl rfl) ?_ ?_ _ _ _
  · intro tuple htuple
    obtain rfl := List.mem_singleton.mp htuple
    exact ⟨_, _, rfl, rfl⟩
  · intro tuple htuple
    rcases List.mem_pair.mp htuple with rfl | rfl
    · exact ⟨_, _, rfl, rfl⟩
    · exact ⟨_, _, rfl, rfl⟩
  · intro tuple htuple
    obtain rfl := List.mem_singleton.mp htuple
    exact ⟨_, rfl, rfl, rfl⟩
  · intro tuple htuple
    rcases List.mem_pair.mp htuple with rfl | rfl
    · exact ⟨_, rfl, rfl, rfl⟩
    · exact ⟨_, rfl, rfl, rfl⟩

end OneBase
