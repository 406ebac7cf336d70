import OneBase.Binder.BoundExpressions
import OneBase.Binder.FromList

/-!
# What an expression says (`binder/binder.cpp`)

A statement names its columns. What one of its expressions says is fixed by the values that the
names stand for; scopes, column indexes and null pointers have no part in it. The binder replaces
the names by indexes and the lists of AND and OR by nested pairs, and the bound expression still
has the value that the parse tree says.

- `PGNode.meaning`: the value of a parse tree, over named columns.
- `namedRow`: the names of the columns of one table.
- `evaluateWith_of_meaning`: the bound expression has that value.
- `Expr.NoNull.evaluateWith`, `noNull_of_bind`: which is not NULL.
- `evaluate_of_meaning`: so it has on the rows of a table.
-/

namespace OneBase

/-- What the names of columns stand for: the first string is the qualifier, or empty. -/
abbrev NamedColumns := String → String → Option Value

/-- What the operators compute. -/
def operatorMeanings : List (String × (Value → Value → Option Value)) :=
  [("=", Value.compareEquals), ("<>", Value.compareNotEquals), ("!=", Value.compareNotEquals),
    ("<", Value.compareLessThan), ("<=", Value.compareLessThanOrEqual),
    (">", Value.compareGreaterThan), (">=", Value.compareGreaterThanOrEqual),
    ("+", Value.add), ("-", Value.subtract), ("*", Value.multiply), ("/", Value.divide),
    ("%", Value.modulo)]

/-- An operation on some operands, from the left; there is at least one. -/
def foldOperands (op : Value → Value → Option Value) : List Value → Option Value
  | [] => none
  | v :: vs => vs.foldlM op v

section Meaning

variable (stof : String → Option UInt32)

/-- The value of a constant. -/
def PGValue.meaning : PGValue → Option Value
  | .integer ival => some (.integer (Int32.ofInt ival))
  | .float str => (stof str).map .float
  | .string str => some (.varchar str.toUTF8.toList)
  | .other => none

mutual

/-- **What a parse tree says.** There is no value if a name stands for nothing or an operation
throws, and for what is no expression. -/
def PGNode.meaning (env : NamedColumns) : PGNode → Option Value
  | .columnRef [.string colName] => env "" colName
  | .columnRef [.string tableQualifier, .string colName] => env tableQualifier colName
  | .aConst val => val.meaning stof
  | .aExpr name lexpr rexpr =>
    (lexpr.meaning env).bind fun left =>
      (rexpr.meaning env).bind fun right =>
        (operatorMeanings.lookup name).bind fun op => op left right
  | .boolExpr .and args => (meanings env args).bind (foldOperands Value.and)
  | .boolExpr .or args => (meanings env args).bind (foldOperands Value.or)
  | _ => none

def meanings (env : NamedColumns) : List PGNode → Option (List Value)
  | [] => some []
  | arg :: args => (arg.meaning env).bind fun v => (meanings env args).map fun vs => v :: vs

end

/-- Whether a WHERE clause holds. One that is not there does; NULL is not true. -/
def PGNode.holds (env : NamedColumns) : PGNode → Option Bool
  | .null => some true
  | node => (node.meaning stof env).bind Value.isTrue

end Meaning

/-! ## Bound expressions -/

section Bound

variable {stof : String → Option UInt32} {scopes : List TableScope} {env : NamedColumns}
  {column : Nat → Nat → Option Value}

/-- An operator of the binder does what its name says. -/
theorem bindOperator_meaning {opName : String} {left right ref : ExpressionRef}
    (h : bindOperator opName left right = some ref) :
    ∃ op, operatorMeanings.lookup opName = some op ∧
      ∀ column, ref.evaluateWith column =
        (left.evaluateWith column).bind fun l => (right.evaluateWith column).bind (op l) := by
  unfold bindOperator at h
  repeat' split at h
  all_goals first
    | (rename_i hname
       obtain rfl := Option.some.inj h
       rcases hname with rfl | rfl <;> exact ⟨_, rfl, fun _ => rfl⟩)
    | cases h

theorem bindConstant_meaning {val : PGValue} {ref : ExpressionRef}
    (h : bindConstant stof val = some ref) : ref.evaluateWith column = val.meaning stof := by
  cases val with
  | integer ival =>
    obtain rfl := Option.some.inj h
    rfl
  | float str =>
    obtain ⟨bits, hbits, rfl⟩ := Option.map_eq_some_iff.mp h
    show some _ = (stof str).map _
    rw [hbits]
    rfl
  | string str =>
    obtain rfl := Option.some.inj h
    rfl
  | other => cases h

/-- The values that the names stand for are those of the columns that they are resolved to. -/
def Names (env : NamedColumns) (scopes : List TableScope) (column : Nat → Nat → Option Value) :
    Prop :=
  ∀ {colName tableQualifier : String} {tupleIdx colIdx : Nat} {type : TypeId} {v : Value},
    resolveColumn colName tableQualifier scopes = some (tupleIdx, colIdx, type) →
      env tableQualifier colName = some v → column tupleIdx colIdx = some v

theorem bindName_meaning (hnames : Names env scopes column) {colName tableQualifier : String}
    {ref : ExpressionRef} (h : bindName scopes colName tableQualifier = some ref) {v : Value}
    (hv : env tableQualifier colName = some v) : ref.evaluateWith column = some v := by
  obtain ⟨⟨tupleIdx, colIdx, type⟩, hresolve, rfl⟩ := Option.map_eq_some_iff.mp h
  exact hnames hresolve hv

mutual

/-- **The bound expression has the value that the parse tree says.** The induction is on the parse
tree; what AND and OR have folded so far is an expression with a value. -/
theorem evaluateWith_of_meaning (hnames : Names env scopes column) :
    ∀ {node : PGNode} {ref : ExpressionRef} {v : Value},
      bindExpression stof scopes node = some ref → node.meaning stof env = some v →
        ref.evaluateWith column = some v
  | .columnRef [.string colName], ref, v, h, hv => by
    rw [bindExpression] at h
    rw [PGNode.meaning] at hv
    exact bindName_meaning hnames h hv
  | .columnRef [.string tableQualifier, .string colName], ref, v, h, hv => by
    rw [bindExpression] at h
    rw [PGNode.meaning] at hv
    exact bindName_meaning hnames h hv
  | .aConst val, ref, v, h, hv => by
    rw [bindExpression] at h
    rw [PGNode.meaning] at hv
    exact (bindConstant_meaning h).trans hv
  | .aExpr name lexpr rexpr, ref, v, h, hv => by
    rw [bindExpression] at h
    rw [PGNode.meaning] at hv
    obtain ⟨left, hleft, h⟩ := Option.bind_eq_some_iff.mp h
    obtain ⟨right, hright, h⟩ := Option.bind_eq_some_iff.mp h
    obtain ⟨l, hl, hv⟩ := Option.bind_eq_some_iff.mp hv
    obtain ⟨r, hr, hv⟩ := Option.bind_eq_some_iff.mp hv
    obtain ⟨op, hop, hv⟩ := Option.bind_eq_some_iff.mp hv
    obtain ⟨op', hop', heval⟩ := bindOperator_meaning h
    obtain rfl := Option.some.inj (hop.symm.trans hop')
    rw [heval, evaluateWith_of_meaning hnames hleft hl, evaluateWith_of_meaning hnames hright hr]
    exact hv
  | .boolExpr .and args, ref, v, h, hv => by
    rw [bindExpression] at h
    rw [PGNode.meaning] at hv
    obtain ⟨vs, hvs, hv⟩ := Option.bind_eq_some_iff.mp hv
    exact evaluateWith_of_meaningArgs hnames h hvs hv
  | .boolExpr .or args, ref, v, h, hv => by
    rw [bindExpression] at h
    rw [PGNode.meaning] at hv
    obtain ⟨vs, hvs, hv⟩ := Option.bind_eq_some_iff.mp hv
    exact evaluateWith_of_meaningArgs hnames h hvs hv
  | .null, ref, v, h, hv => by cases hv
  | .columnRef [], ref, v, h, hv => by cases hv
  | .columnRef [.star], ref, v, h, hv => by cases hv
  | .columnRef (.star :: _ :: _), ref, v, h, hv => by cases hv
  | .columnRef [.string _, .star], ref, v, h, hv => by cases hv
  | .columnRef (.string _ :: .star :: _ :: _), ref, v, h, hv => by cases hv
  | .columnRef (.string _ :: .string _ :: _ :: _), ref, v, h, hv => by cases hv
  | .boolExpr .not args, ref, v, h, hv => by cases hv
  | .funcCall .., ref, v, h, hv => by cases hv
  | .aStar, ref, v, h, hv => by cases hv
  | .other, ref, v, h, hv => by cases hv

theorem evaluateWith_of_meaningArgs (hnames : Names env scopes column) {type : LogicType} :
    ∀ {args : List PGNode} {ref : ExpressionRef} {vs : List Value} {v : Value},
      bindArgs stof scopes type args = some ref → meanings stof env args = some vs →
        foldOperands type.perform vs = some v → ref.evaluateWith column = some v
  | [], ref, vs, v, h, hvs, hv => by cases h
  | arg :: args, ref, vs, v, h, hvs, hv => by
    rw [bindArgs] at h
    rw [meanings] at hvs
    obtain ⟨first, hfirst, h⟩ := Option.bind_eq_some_iff.mp h
    obtain ⟨w, hw, hvs⟩ := Option.bind_eq_some_iff.mp hvs
    obtain ⟨ws, hws, rfl⟩ := Option.map_eq_some_iff.mp hvs
    exact evaluateWith_of_meaningMore hnames (evaluateWith_of_meaning hnames hfirst hw) h hws hv

theorem evaluateWith_of_meaningMore (hnames : Names env scopes column) {type : LogicType} :
    ∀ {args : List PGNode} {result ref : ExpressionRef} {w : Value} {vs : List Value} {v : Value},
      result.evaluateWith column = some w → bindMore stof scopes type args result = some ref →
        meanings stof env args = some vs → vs.foldlM type.perform w = some v →
          ref.evaluateWith column = some v
  | [], result, ref, w, vs, v, hw, h, hvs, hv => by
    rw [bindMore] at h
    rw [meanings] at hvs
    obtain rfl := Option.some.inj h
    obtain rfl := Option.some.inj hvs
    exact hw.trans hv
  | arg :: args, result, ref, w, vs, v, hw, h, hvs, hv => by
    rw [bindMore] at h
    rw [meanings] at hvs
    obtain ⟨right, hright, h⟩ := Option.bind_eq_some_iff.mp h
    obtain ⟨r, hr, hvs⟩ := Option.bind_eq_some_iff.mp hvs
    obtain ⟨rs, hrs, rfl⟩ := Option.map_eq_some_iff.mp hvs
    rw [List.foldlM_cons] at hv
    obtain ⟨w', hw', hv⟩ := Option.bind_eq_some_iff.mp hv
    have hboth : (ExpressionRef.logic result right type).evaluateWith column = some w' := by
      rw [ExpressionRef.evaluateWith, hw, evaluateWith_of_meaning hnames hright hr]
      exact hw'
    exact evaluateWith_of_meaningMore hnames hboth h hrs hv

end

end Bound

/-! ## NULL

There is no way to write NULL in a statement, and no operation makes one of other values. -/

/-- No constant of the expression is NULL. -/
def Expr.NoNull : Expr → Prop
  | columnValue _ _ _ => True
  | constant val => val.isNull = false
  | comparison left right _ => NoNull left ∧ NoNull right
  | arithmetic left right _ => NoNull left ∧ NoNull right
  | logic left right _ => NoNull left ∧ NoNull right

namespace Value

theorem notNull_of_compareWith {integers : Int32 → Int32 → Bool} {floats : UInt32 → UInt32 → Bool}
    {strings : List UInt8 → List UInt8 → Bool} {booleans : Option (Bool → Bool → Bool)}
    {v o w : Value} (h : compareWith integers floats strings booleans v o = some w) :
    w.isNull = false := by
  rw [compareWith] at h
  split at h
  · cases h
  · split at h
    · obtain ⟨_, -, rfl⟩ := Option.map_eq_some_iff.mp h
      rfl
    · obtain ⟨_, -, rfl⟩ := Option.map_eq_some_iff.mp h
      rfl
    · obtain ⟨_, -, rfl⟩ := Option.map_eq_some_iff.mp h
      rfl
    · obtain ⟨_, -, h⟩ := Option.bind_eq_some_iff.mp h
      obtain ⟨_, -, rfl⟩ := Option.map_eq_some_iff.mp h
      rfl
    · cases h

theorem notNull_of_arithmeticWith {integers : Int → Int → Option Int}
    {floats : Option (Float32 → Float32 → Float32)} {v o w : Value}
    (h : arithmeticWith integers floats v o = some w) : w.isNull = false := by
  rw [arithmeticWith] at h
  split at h
  · cases h
  · split at h
    · obtain ⟨i, -, h⟩ := Option.bind_eq_some_iff.mp h
      obtain ⟨-, h⟩ := Option.ite_none_right_eq_some.mp h
      obtain rfl := Option.some.inj h
      rfl
    · obtain ⟨_, -, h⟩ := Option.bind_eq_some_iff.mp h
      obtain ⟨_, -, h⟩ := Option.bind_eq_some_iff.mp h
      obtain ⟨_, -, rfl⟩ := Option.map_eq_some_iff.mp h
      rfl
    · cases h

end Value

theorem ComparisonType.notNull_of_perform {compType : ComparisonType} {v o w : Value}
    (h : compType.perform v o = some w) : w.isNull = false := by
  cases compType <;> exact Value.notNull_of_compareWith h

theorem ArithmeticType.notNull_of_perform {arithType : ArithmeticType} {v o w : Value}
    (h : arithType.perform v o = some w) : w.isNull = false := by
  cases arithType with
  | divide =>
    obtain ⟨-, h⟩ := Option.ite_none_left_eq_some.mp h
    exact Value.notNull_of_arithmeticWith h
  | plus =>
    rw [perform, Value.add] at h
    exact Value.notNull_of_arithmeticWith h
  | minus =>
    rw [perform, Value.subtract] at h
    exact Value.notNull_of_arithmeticWith h
  | multiply =>
    rw [perform, Value.multiply] at h
    exact Value.notNull_of_arithmeticWith h
  | modulo =>
    rw [perform, Value.modulo] at h
    exact Value.notNull_of_arithmeticWith h

theorem LogicType.notNull_of_perform {logicType : LogicType} {v o w : Value}
    (h : logicType.perform v o = some w) : w.isNull = false := by
  cases logicType with
  | and =>
    obtain ⟨_, -, h⟩ := Option.bind_eq_some_iff.mp h
    obtain ⟨_, -, rfl⟩ := Option.map_eq_some_iff.mp h
    rfl
  | or =>
    obtain ⟨_, -, h⟩ := Option.bind_eq_some_iff.mp h
    obtain ⟨_, -, rfl⟩ := Option.map_eq_some_iff.mp h
    rfl

/-- **The value of an expression** is not NULL, if neither its constants nor the columns are. -/
theorem Expr.NoNull.evaluateWith {column : Nat → Nat → Option Value}
    (hcolumn : ∀ {i j v}, column i j = some v → v.isNull = false) {e : Expr} (h : e.NoNull)
    {v : Value} (hv : e.evaluateWith column = some v) : v.isNull = false := by
  cases e with
  | columnValue => exact hcolumn hv
  | constant val =>
    obtain rfl := Option.some.inj hv
    exact h
  | comparison left right compType =>
    obtain ⟨l, -, hv⟩ := Option.bind_eq_some_iff.mp hv
    obtain ⟨r, -, hv⟩ := Option.bind_eq_some_iff.mp hv
    exact ComparisonType.notNull_of_perform hv
  | arithmetic left right arithType =>
    obtain ⟨l, -, hv⟩ := Option.bind_eq_some_iff.mp hv
    obtain ⟨r, -, hv⟩ := Option.bind_eq_some_iff.mp hv
    exact ArithmeticType.notNull_of_perform hv
  | logic left right logicType =>
    obtain ⟨l, -, hv⟩ := Option.bind_eq_some_iff.mp hv
    obtain ⟨r, -, hv⟩ := Option.bind_eq_some_iff.mp hv
    exact LogicType.notNull_of_perform hv

/-- No constant of a bound expression is NULL, if it is a tree. -/
def ExpressionRef.NoNull (ref : ExpressionRef) : Prop := ∀ e, ref.toExpr = some e → e.NoNull

section NoNull

variable {stof : String → Option UInt32} {scopes : List TableScope}

theorem noNull_bindName {colName tableQualifier : String} {ref : ExpressionRef}
    (h : bindName scopes colName tableQualifier = some ref) : ref.NoNull := by
  obtain ⟨⟨tupleIdx, colIdx, type⟩, -, rfl⟩ := Option.map_eq_some_iff.mp h
  intro e he
  obtain rfl := Option.some.inj he
  trivial

theorem noNull_bindColumnRef {fields : List PGField} {ref : ExpressionRef}
    (h : bindColumnRef scopes fields = some ref) : ref.NoNull := by
  unfold bindColumnRef at h
  split at h
  · exact noNull_bindName h
  · obtain rfl := Option.some.inj h
    exact fun e he => by cases he
  · obtain rfl := Option.some.inj h
    exact fun e he => by cases he
  · exact noNull_bindName h
  · cases h
  · exact noNull_bindName h

theorem noNull_bindConstant {val : PGValue} {ref : ExpressionRef}
    (h : bindConstant stof val = some ref) : ref.NoNull := by
  intro e he
  cases val with
  | integer ival =>
    obtain rfl := Option.some.inj h
    obtain rfl := Option.some.inj he
    rfl
  | float str =>
    obtain ⟨bits, -, rfl⟩ := Option.map_eq_some_iff.mp h
    obtain rfl := Option.some.inj he
    rfl
  | string str =>
    obtain rfl := Option.some.inj h
    obtain rfl := Option.some.inj he
    rfl
  | other => cases h

/-- Both operands of a connective. -/
theorem ExpressionRef.NoNull.logic {left right : ExpressionRef} (hl : left.NoNull)
    (hr : right.NoNull) (type : LogicType) : (ExpressionRef.logic left right type).NoNull := by
  intro e he
  obtain ⟨l, hle, he⟩ := Option.bind_eq_some_iff.mp he
  obtain ⟨r, hre, rfl⟩ := Option.map_eq_some_iff.mp he
  exact ⟨hl l hle, hr r hre⟩

mutual

/-- **No constant of a bound expression is NULL.** -/
theorem noNull_of_bind : ∀ {node : PGNode} {ref : ExpressionRef},
    bindExpression stof scopes node = some ref → ref.NoNull
  | .null, ref, h => by
    rw [bindExpression] at h
    obtain rfl := Option.some.inj h
    exact fun e he => by cases he
  | .columnRef fields, ref, h => by
    rw [bindExpression] at h
    exact noNull_bindColumnRef h
  | .aConst val, ref, h => by
    rw [bindExpression] at h
    exact noNull_bindConstant h
  | .aExpr name lexpr rexpr, ref, h => by
    rw [bindExpression] at h
    obtain ⟨left, hleft, h⟩ := Option.bind_eq_some_iff.mp h
    obtain ⟨right, hright, h⟩ := Option.bind_eq_some_iff.mp h
    intro e he
    rcases bindOperator_cases h with ⟨compType, rfl⟩ | ⟨arithType, rfl⟩
    · obtain ⟨l, hle, he⟩ := Option.bind_eq_some_iff.mp he
      obtain ⟨r, hre, rfl⟩ := Option.map_eq_some_iff.mp he
      exact ⟨noNull_of_bind hleft l hle, noNull_of_bind hright r hre⟩
    · obtain ⟨l, hle, he⟩ := Option.bind_eq_some_iff.mp he
      obtain ⟨r, hre, rfl⟩ := Option.map_eq_some_iff.mp he
      exact ⟨noNull_of_bind hleft l hle, noNull_of_bind hright r hre⟩
  | .boolExpr .and args, ref, h => by
    rw [bindExpression] at h
    exact noNull_of_bindArgs h
  | .boolExpr .or args, ref, h => by
    rw [bindExpression] at h
    exact noNull_of_bindArgs h
  | .boolExpr .not args, ref, h => by cases h
  | .funcCall .., ref, h => by cases h
  | .aStar, ref, h => by cases h
  | .other, ref, h => by cases h

theorem noNull_of_bindArgs {type : LogicType} : ∀ {args : List PGNode} {ref : ExpressionRef},
    bindArgs stof scopes type args = some ref → ref.NoNull
  | [], ref, h => by cases h
  | arg :: args, ref, h => by
    rw [bindArgs] at h
    obtain ⟨first, hfirst, h⟩ := Option.bind_eq_some_iff.mp h
    exact noNull_of_bindMore (noNull_of_bind hfirst) h

theorem noNull_of_bindMore {type : LogicType} :
    ∀ {args : List PGNode} {result ref : ExpressionRef}, result.NoNull →
      bindMore stof scopes type args result = some ref → ref.NoNull
  | [], result, ref, hresult, h => by
    rw [bindMore] at h
    obtain rfl := Option.some.inj h
    exact hresult
  | arg :: args, result, ref, hresult, h => by
    rw [bindMore] at h
    obtain ⟨right, hright, h⟩ := Option.bind_eq_some_iff.mp h
    exact noNull_of_bindMore (hresult.logic (noNull_of_bind hright) type) h

end

end NoNull

/-! ## Rows of one table -/

/-- A row under the names of its columns, of which the first is meant if there are two. -/
def namedRow (aliasName : String) (columns : List String) (row : List Value) : NamedColumns :=
  fun tableQualifier colName =>
    if tableQualifier = "" ∨ tableQualifier = aliasName then (columns.zip row).lookup colName
    else none

/-- The first column of a name. -/
theorem lookup_zip_of_findIdx {columns : List Column} {colName : String} {i : Nat}
    (h : (columns.findIdx? fun col => col.name == colName) = some i) (row : List Value) :
    ((columns.map Column.name).zip row).lookup colName = row[i]? := by
  induction columns generalizing i row with
  | nil => cases h
  | cons col columns ih =>
    cases row with
    | nil => simp
    | cons v row =>
      rw [List.findIdx?_cons] at h
      rw [List.map_cons, List.zip_cons_cons, List.lookup_cons]
      by_cases hname : col.name = colName
      · rw [if_pos (beq_iff_eq.mpr hname)] at h
        obtain rfl := Option.some.inj h
        rw [beq_iff_eq.mpr hname.symm]
        rfl
      · rw [if_neg (by simpa using hname)] at h
        obtain ⟨j, hj, rfl⟩ := Option.map_eq_some_iff.mp h
        rw [beq_eq_false_iff_ne.mpr (Ne.symm hname), List.getElem?_cons_succ]
        exact ih hj row

/-- A row of the table has the columns that are named. -/
theorem names_namedRow {aliasName : String} {schema : Schema} {tuple : Tuple}
    (hrow : Row schema.given tuple.values) :
    Names (namedRow aliasName (schema.given.map Column.name) tuple.values)
      [⟨aliasName, schema, 0⟩] fun _ colIdx => tuple.getValue schema colIdx := by
  intro colName tableQualifier tupleIdx colIdx type v hresolve hv
  rw [namedRow] at hv
  rw [resolveColumn] at hresolve
  split at hresolve
  · cases hresolve
  · split at hresolve
    · rename_i i hfind
      obtain ⟨col, -, hcol⟩ := Option.map_eq_some_iff.mp hresolve
      cases hcol
      split at hv
      · rw [lookup_zip_of_findIdx hfind] at hv
        show tuple.getValue schema colIdx = some v
        rw [getValue_of_length hrow.length_eq.symm, hv]
      · cases hv
    · cases hresolve

/-- **The bound expression on a row** of the table. -/
theorem evaluate_of_meaning {stof : String → Option UInt32} {aliasName : String} {schema : Schema}
    {node : PGNode} (hcomplete : node.Complete) {ref : ExpressionRef}
    (h : bindExpression stof [⟨aliasName, schema, 0⟩] node = some ref) :
    ∃ tree, ref.toExpr = some tree ∧ ∀ {tuple : Tuple} {v : Value},
      Row schema.given tuple.values →
        node.meaning stof (namedRow aliasName (schema.given.map Column.name) tuple.values) =
            some v →
          tree.evaluate tuple schema = some v := by
  obtain ⟨tree, htree⟩ := ((wellFormed_iff_complete h).mpr hcomplete).exists_toExpr
  refine ⟨tree, htree, fun hrow hv => ?_⟩
  rw [← ExpressionRef.evaluate_of_toExpr htree]
  exact evaluateWith_of_meaning (names_namedRow hrow) h hv

end OneBase
