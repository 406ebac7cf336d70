import OneBase.Storage.Tuple

/-!
# Expressions (`execution/expressions`)

Expression trees with the two ways to evaluate them: on one tuple, and on the pair of
tuples of a join. A tuple comes with its schema. `Evaluate(nullptr, nullptr)`, which
a scan calls on its lookup key, is the evaluation without a tuple.
-/

namespace OneBase

/-- The enumeration `ComparisonType`. -/
inductive ComparisonType where
  | equal
  | notEqual
  | lessThan
  | lessThanOrEqual
  | greaterThan
  | greaterThanOrEqual
  deriving DecidableEq

/-- The enumeration `ArithmeticType`. -/
inductive ArithmeticType where
  | plus
  | minus
  | multiply
  | divide
  | modulo
  deriving DecidableEq

/-- The enumeration `LogicType`. -/
inductive LogicType where
  | and
  | or
  deriving DecidableEq

/-- Model of `AbstractExpression` and its subclasses. -/
inductive Expr where
  | columnValue (tupleIdx colIdx : Nat) (retType : TypeId)
  | constant (val : Value)
  | comparison (left right : Expr) (compType : ComparisonType)
  | arithmetic (left right : Expr) (arithType : ArithmeticType)
  | logic (left right : Expr) (logicType : LogicType)
  deriving DecidableEq

/-- Model of `PerformComparison`. -/
def ComparisonType.perform : ComparisonType → Value → Value → Option Value
  | equal => Value.compareEquals
  | notEqual => Value.compareNotEquals
  | lessThan => Value.compareLessThan
  | lessThanOrEqual => Value.compareLessThanOrEqual
  | greaterThan => Value.compareGreaterThan
  | greaterThanOrEqual => Value.compareGreaterThanOrEqual

/-- Model of `PerformComputation`. -/
def ArithmeticType.perform : ArithmeticType → Value → Value → Option Value
  | plus => Value.add
  | minus => Value.subtract
  | multiply => Value.multiply
  | divide => Value.divide
  | modulo => Value.modulo

/-- Model of `PerformLogic`. -/
def LogicType.perform : LogicType → Value → Value → Option Value
  | and => Value.and
  | or => Value.or

namespace Expr

/-- The two evaluations differ in the columns: `column` gives the value of a column. -/
def evaluateWith (column : Nat → Nat → Option Value) : Expr → Option Value
  | columnValue tupleIdx colIdx _ => column tupleIdx colIdx
  | constant val => some val
  | comparison left right compType =>
    (evaluateWith column left).bind fun l => (evaluateWith column right).bind (compType.perform l)
  | arithmetic left right arithType =>
    (evaluateWith column left).bind fun l => (evaluateWith column right).bind (arithType.perform l)
  | logic left right logicType =>
    (evaluateWith column left).bind fun l => (evaluateWith column right).bind (logicType.perform l)

/-- Model of `Evaluate`. -/
def evaluate (e : Expr) (tuple : Tuple) (schema : Schema) : Option Value :=
  e.evaluateWith fun _ colIdx => tuple.getValue schema colIdx

/-- Model of `Evaluate(nullptr, nullptr)`: a column is a null pointer dereference. -/
def evaluateNull (e : Expr) : Option Value := e.evaluateWith fun _ _ => none

/-- Model of `EvaluateJoin`. -/
def evaluateJoin (e : Expr) (leftTuple : Tuple) (leftSchema : Schema) (rightTuple : Tuple)
    (rightSchema : Schema) : Option Value :=
  e.evaluateWith fun tupleIdx colIdx =>
    if tupleIdx = 0 then leftTuple.getValue leftSchema colIdx
    else rightTuple.getValue rightSchema colIdx

end Expr

end OneBase
