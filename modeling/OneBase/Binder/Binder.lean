import OneBase.Execution.Expressions

/-!
# Binding expressions (`binder/binder.cpp`)

Parse trees have the shape of the vendored libpg_query: an operand that is not there is
a null pointer. `BindExpression` makes an expression of a parse tree, whose column
references it resolves against the tables of the FROM clause. A pointer to an expression
may be null as well.

- `ExpressionRef.evaluate_of_toExpr`: an expression without null pointers is evaluated
  like the tree that it stands for.
- `forallColumns_of_bind`: the columns of a bound expression are columns of the scopes.
-/

namespace OneBase

/-! ## Parse trees -/

/-- The nodes in `PGColumnRef::fields`. -/
inductive PGField where
  | string (str : String)
  | star

/-- The values of a `PGAConst`. -/
inductive PGValue where
  | integer (ival : Int)
  | float (str : String)
  | string (str : String)
  | other

/-- The enumeration `PGBoolExprType`. -/
inductive PGBoolExprType where
  | and
  | or
  | not

/-- A pointer to a `PGNode`. Of the name of an operator only the first string is read, of
a function the last one. `BindQuery` reads of a call neither its DISTINCT nor its FILTER, and
not whether it has an OVER clause. -/
inductive PGNode where
  | null
  | columnRef (fields : List PGField)
  | aConst (val : PGValue)
  | aExpr (name : String) (lexpr rexpr : PGNode)
  | boolExpr (boolop : PGBoolExprType) (args : List PGNode)
  | funcCall (funcname : String) (args : List PGNode) (aggStar aggDistinct : Bool)
      (aggFilter : PGNode) (hasOver : Bool)
  | aStar
  | other

/-- Model of `TableScope`; of the table only the schema is read. -/
structure TableScope where
  aliasName : String
  schema : Schema
  tupleIdx : Nat

/-! ## Bound expressions -/

/-- Model of `AbstractExpressionRef`, a pointer to an expression. -/
inductive ExpressionRef where
  | null
  | columnValue (tupleIdx colIdx : Nat) (retType : TypeId)
  | constant (val : Value)
  | comparison (left right : ExpressionRef) (compType : ComparisonType)
  | arithmetic (left right : ExpressionRef) (arithType : ArithmeticType)
  | logic (left right : ExpressionRef) (logicType : LogicType)

namespace ExpressionRef

/-- The expression without null pointers, if there are none. -/
def toExpr : ExpressionRef → Option Expr
  | null => none
  | columnValue tupleIdx colIdx retType => some (.columnValue tupleIdx colIdx retType)
  | constant val => some (.constant val)
  | comparison left right compType =>
    left.toExpr.bind fun l => right.toExpr.map fun r => .comparison l r compType
  | arithmetic left right arithType =>
    left.toExpr.bind fun l => right.toExpr.map fun r => .arithmetic l r arithType
  | logic left right logicType =>
    left.toExpr.bind fun l => right.toExpr.map fun r => .logic l r logicType

/-- The two evaluations, as in `Expr.evaluateWith`; a null pointer is dereferenced. -/
def evaluateWith (column : Nat → Nat → Option Value) : ExpressionRef → Option Value
  | null => none
  | columnValue tupleIdx colIdx _ => column tupleIdx colIdx
  | constant val => some val
  | comparison left right compType =>
    (evaluateWith column left).bind fun l => (evaluateWith column right).bind (compType.perform l)
  | arithmetic left right arithType =>
    (evaluateWith column left).bind fun l => (evaluateWith column right).bind (arithType.perform l)
  | logic left right logicType =>
    (evaluateWith column left).bind fun l => (evaluateWith column right).bind (logicType.perform l)

/-- Model of `Evaluate`. -/
def evaluate (e : ExpressionRef) (tuple : Tuple) (schema : Schema) : Option Value :=
  e.evaluateWith fun _ colIdx => tuple.getValue schema colIdx

/-- Model of `EvaluateJoin`. -/
def evaluateJoin (e : ExpressionRef) (leftTuple : Tuple) (leftSchema : Schema)
    (rightTuple : Tuple) (rightSchema : Schema) : Option Value :=
  e.evaluateWith fun tupleIdx colIdx =>
    if tupleIdx = 0 then leftTuple.getValue leftSchema colIdx
    else rightTuple.getValue rightSchema colIdx

/-- **An expression without null pointers** is evaluated like its tree. -/
theorem evaluateWith_of_toExpr {e : ExpressionRef} (column : Nat → Nat → Option Value) :
    ∀ {tree : Expr}, e.toExpr = some tree → e.evaluateWith column = tree.evaluateWith column := by
  induction e with
  | null => exact fun h => by cases h
  | columnValue tupleIdx colIdx retType =>
    intro tree h
    obtain rfl := Option.some.inj h
    rfl
  | constant val =>
    intro tree h
    obtain rfl := Option.some.inj h
    rfl
  | comparison left right compType ihl ihr =>
    intro tree h
    obtain ⟨l, hl, h⟩ := Option.bind_eq_some_iff.mp h
    obtain ⟨r, hr, rfl⟩ := Option.map_eq_some_iff.mp h
    rw [evaluateWith, Expr.evaluateWith, ihl hl, ihr hr]
  | arithmetic left right arithType ihl ihr =>
    intro tree h
    obtain ⟨l, hl, h⟩ := Option.bind_eq_some_iff.mp h
    obtain ⟨r, hr, rfl⟩ := Option.map_eq_some_iff.mp h
    rw [evaluateWith, Expr.evaluateWith, ihl hl, ihr hr]
  | logic left right logicType ihl ihr =>
    intro tree h
    obtain ⟨l, hl, h⟩ := Option.bind_eq_some_iff.mp h
    obtain ⟨r, hr, rfl⟩ := Option.map_eq_some_iff.mp h
    rw [evaluateWith, Expr.evaluateWith, ihl hl, ihr hr]

theorem evaluate_of_toExpr {e : ExpressionRef} {tree : Expr} (h : e.toExpr = some tree)
    (tuple : Tuple) (schema : Schema) : e.evaluate tuple schema = tree.evaluate tuple schema :=
  evaluateWith_of_toExpr _ h

/-- A property of all columns that an expression reads. -/
def ForallColumns (P : Nat → Nat → Prop) : ExpressionRef → Prop
  | null => True
  | columnValue tupleIdx colIdx _ => P tupleIdx colIdx
  | constant _ => True
  | comparison left right _ => ForallColumns P left ∧ ForallColumns P right
  | arithmetic left right _ => ForallColumns P left ∧ ForallColumns P right
  | logic left right _ => ForallColumns P left ∧ ForallColumns P right

/-- Expressions have the same value if their columns do. -/
theorem evaluateWith_congr {column column' : Nat → Nat → Option Value} {e : ExpressionRef}
    (h : e.ForallColumns fun tupleIdx colIdx => column tupleIdx colIdx = column' tupleIdx colIdx) :
    e.evaluateWith column = e.evaluateWith column' := by
  induction e with
  | null => rfl
  | columnValue => exact h
  | constant => rfl
  | comparison left right compType ihl ihr => rw [evaluateWith, evaluateWith, ihl h.1, ihr h.2]
  | arithmetic left right arithType ihl ihr => rw [evaluateWith, evaluateWith, ihl h.1, ihr h.2]
  | logic left right logicType ihl ihr => rw [evaluateWith, evaluateWith, ihl h.1, ihr h.2]

theorem ForallColumns.imp {P Q : Nat → Nat → Prop} (hPQ : ∀ i j, P i j → Q i j)
    {e : ExpressionRef} (h : e.ForallColumns P) : e.ForallColumns Q := by
  induction e with
  | null => trivial
  | columnValue => exact hPQ _ _ h
  | constant => trivial
  | comparison left right compType ihl ihr => exact ⟨ihl h.1, ihr h.2⟩
  | arithmetic left right arithType ihl ihr => exact ⟨ihl h.1, ihr h.2⟩
  | logic left right logicType ihl ihr => exact ⟨ihl h.1, ihr h.2⟩

theorem ForallColumns.and {P Q : Nat → Nat → Prop} {e : ExpressionRef} (hP : e.ForallColumns P)
    (hQ : e.ForallColumns Q) : e.ForallColumns fun i j => P i j ∧ Q i j := by
  induction e with
  | null => trivial
  | columnValue => exact ⟨hP, hQ⟩
  | constant => trivial
  | comparison left right compType ihl ihr => exact ⟨ihl hP.1 hQ.1, ihr hP.2 hQ.2⟩
  | arithmetic left right arithType ihl ihr => exact ⟨ihl hP.1 hQ.1, ihr hP.2 hQ.2⟩
  | logic left right logicType ihl ihr => exact ⟨ihl hP.1 hQ.1, ihr hP.2 hQ.2⟩

end ExpressionRef

/-! ## The binder -/

/-- Model of `ResolveColumn`: the tuple index, the column index and the type of the first
column with the name. An empty qualifier is none. `none` is an exception. -/
def resolveColumn (colName tableQualifier : String) :
    List TableScope → Option (Nat × Nat × TypeId)
  | [] => none
  | scope :: scopes =>
    if tableQualifier ≠ "" ∧ tableQualifier ≠ scope.aliasName then
      resolveColumn colName tableQualifier scopes
    else
      match scope.schema.given.findIdx? fun col => col.name == colName with
      | some i => (scope.schema.getColumn i).map fun col => (scope.tupleIdx, i, col.type)
      | none => resolveColumn colName tableQualifier scopes

/-- Make a `ColumnValueExpression` of a name. -/
def bindName (scopes : List TableScope) (colName tableQualifier : String) : Option ExpressionRef :=
  (resolveColumn colName tableQualifier scopes).map fun (tupleIdx, colIdx, type) =>
    .columnValue tupleIdx colIdx type

/-- Model of `BindColumnRef`. A star gives a null pointer; a reference with other than one
or two fields looks for the empty name. -/
def bindColumnRef (scopes : List TableScope) : List PGField → Option ExpressionRef
  | [.string colName] => bindName scopes colName ""
  | [.star] => some .null
  | [.string _, .star] => some .null
  | [.string tableQualifier, .string colName] => bindName scopes colName tableQualifier
  -- `strVal` of a star is undefined
  | [.star, _] => none
  | _ => bindName scopes "" ""

section

-- `std::stof`: the bits of the float, or an exception
variable (stof : String → Option UInt32)

/-- Model of `BindConstant`. -/
def bindConstant : PGValue → Option ExpressionRef
  | .integer ival => some (.constant (.integer (Int32.ofInt ival)))
  | .float str => (stof str).map fun bits => .constant (.float bits)
  | .string str => some (.constant (.varchar str.toUTF8.toList))
  | .other => none

/-- The part of `BindAExpr` that looks at the name of the operator. -/
def bindOperator (opName : String) (left right : ExpressionRef) : Option ExpressionRef :=
  if opName = "=" then some (.comparison left right .equal)
  else if opName = "<>" ∨ opName = "!=" then some (.comparison left right .notEqual)
  else if opName = "<" then some (.comparison left right .lessThan)
  else if opName = "<=" then some (.comparison left right .lessThanOrEqual)
  else if opName = ">" then some (.comparison left right .greaterThan)
  else if opName = ">=" then some (.comparison left right .greaterThanOrEqual)
  else if opName = "+" then some (.arithmetic left right .plus)
  else if opName = "-" then some (.arithmetic left right .minus)
  else if opName = "*" then some (.arithmetic left right .multiply)
  else if opName = "/" then some (.arithmetic left right .divide)
  else if opName = "%" then some (.arithmetic left right .modulo)
  else none

mutual

/-- Model of `BindExpression`, with `BindAExpr` and `BindBoolExpr`. -/
def bindExpression (scopes : List TableScope) : PGNode → Option ExpressionRef
  | .null => some .null
  | .columnRef fields => bindColumnRef scopes fields
  | .aConst val => bindConstant stof val
  | .aExpr name lexpr rexpr =>
    (bindExpression scopes lexpr).bind fun left =>
      (bindExpression scopes rexpr).bind fun right => bindOperator name left right
  | .boolExpr .and args => bindArgs scopes .and args
  | .boolExpr .or args => bindArgs scopes .or args
  | .boolExpr .not _ => none
  | .funcCall .. => none
  | .aStar => none
  | .other => none

/-- The arguments of an AND or OR, folded from the left; there is at least one. -/
def bindArgs (scopes : List TableScope) (type : LogicType) : List PGNode → Option ExpressionRef
  | [] => none
  | arg :: args => (bindExpression scopes arg).bind (bindMore scopes type args)

/-- The arguments after the first. -/
def bindMore (scopes : List TableScope) (type : LogicType) :
    List PGNode → ExpressionRef → Option ExpressionRef
  | [], result => some result
  | arg :: args, result =>
    (bindExpression scopes arg).bind fun right =>
      bindMore scopes type args (.logic result right type)

end

/-! ## What bound expressions read -/

variable {stof} {scopes : List TableScope} {P : Nat → Nat → Prop}

/-- An operator has two operands, whatever it is. -/
theorem bindOperator_cases {opName : String} {left right ref : ExpressionRef}
    (h : bindOperator opName left right = some ref) :
    (∃ compType, ref = .comparison left right compType) ∨
      ∃ arithType, ref = .arithmetic left right arithType := by
  unfold bindOperator at h
  repeat' split at h
  all_goals first
    | exact .inl ⟨_, (Option.some.inj h).symm⟩
    | exact .inr ⟨_, (Option.some.inj h).symm⟩
    | cases h

theorem forallColumns_bindName {colName tableQualifier : String} {ref : ExpressionRef}
    (hP : ∀ colName tableQualifier tupleIdx colIdx type,
      resolveColumn colName tableQualifier scopes = some (tupleIdx, colIdx, type) →
        P tupleIdx colIdx)
    (h : bindName scopes colName tableQualifier = some ref) : ref.ForallColumns P := by
  obtain ⟨⟨tupleIdx, colIdx, type⟩, hresolve, rfl⟩ := Option.map_eq_some_iff.mp h
  exact hP _ _ _ _ _ hresolve

theorem forallColumns_bindColumnRef {fields : List PGField} {ref : ExpressionRef}
    (hP : ∀ colName tableQualifier tupleIdx colIdx type,
      resolveColumn colName tableQualifier scopes = some (tupleIdx, colIdx, type) →
        P tupleIdx colIdx)
    (h : bindColumnRef scopes fields = some ref) : ref.ForallColumns P := by
  unfold bindColumnRef at h
  split at h
  · exact forallColumns_bindName hP h
  · cases h; trivial
  · cases h; trivial
  · exact forallColumns_bindName hP h
  · cases h
  · exact forallColumns_bindName hP h

mutual

/-- **The columns of a bound expression** are columns that names are resolved to. -/
theorem forallColumns_of_bind
    (hP : ∀ colName tableQualifier tupleIdx colIdx type,
      resolveColumn colName tableQualifier scopes = some (tupleIdx, colIdx, type) →
        P tupleIdx colIdx) :
    ∀ {node : PGNode} {ref : ExpressionRef}, bindExpression stof scopes node = some ref →
      ref.ForallColumns P
  | .null, ref, h => by cases h; trivial
  | .columnRef fields, ref, h => forallColumns_bindColumnRef hP h
  | .aConst val, ref, h => by
    cases val with
    | integer ival => cases h; trivial
    | float str =>
      obtain ⟨bits, -, rfl⟩ := Option.map_eq_some_iff.mp h
      trivial
    | string str => cases h; trivial
    | other => cases h
  | .aExpr name lexpr rexpr, ref, h => by
    rw [bindExpression] at h
    obtain ⟨left, hleft, h⟩ := Option.bind_eq_some_iff.mp h
    obtain ⟨right, hright, h⟩ := Option.bind_eq_some_iff.mp h
    have hl := forallColumns_of_bind hP hleft
    have hr := forallColumns_of_bind hP hright
    rcases bindOperator_cases h with ⟨compType, rfl⟩ | ⟨arithType, rfl⟩
    · exact ⟨hl, hr⟩
    · exact ⟨hl, hr⟩
  | .boolExpr .and args, ref, h => forallColumns_of_bindArgs hP h
  | .boolExpr .or args, ref, h => forallColumns_of_bindArgs hP h
  | .boolExpr .not args, ref, h => by cases h
  | .funcCall .., ref, h => by cases h
  | .aStar, ref, h => by cases h
  | .other, ref, h => by cases h

theorem forallColumns_of_bindArgs
    (hP : ∀ colName tableQualifier tupleIdx colIdx type,
      resolveColumn colName tableQualifier scopes = some (tupleIdx, colIdx, type) →
        P tupleIdx colIdx)
    {type : LogicType} :
    ∀ {args : List PGNode} {ref : ExpressionRef}, bindArgs stof scopes type args = some ref →
      ref.ForallColumns P
  | [], ref, h => by cases h
  | arg :: args, ref, h => by
    rw [bindArgs] at h
    obtain ⟨first, hfirst, h⟩ := Option.bind_eq_some_iff.mp h
    exact forallColumns_of_bindMore hP (forallColumns_of_bind hP hfirst) h

theorem forallColumns_of_bindMore
    (hP : ∀ colName tableQualifier tupleIdx colIdx type,
      resolveColumn colName tableQualifier scopes = some (tupleIdx, colIdx, type) →
        P tupleIdx colIdx)
    {type : LogicType} :
    ∀ {args : List PGNode} {result ref : ExpressionRef}, result.ForallColumns P →
      bindMore stof scopes type args result = some ref → ref.ForallColumns P
  | [], result, ref, hresult, h => by
    rw [bindMore] at h
    cases h
    exact hresult
  | arg :: args, result, ref, hresult, h => by
    rw [bindMore] at h
    obtain ⟨right, hright, h⟩ := Option.bind_eq_some_iff.mp h
    have hboth : (ExpressionRef.logic result right type).ForallColumns P :=
      ⟨hresult, forallColumns_of_bind hP hright⟩
    exact forallColumns_of_bindMore hP hboth h

end

end

end OneBase
