import OneBase.Execution.Expressions
import OneBase.Lib.Outcome

/-!
# Arithmetic on INTEGERs (`arithmetic_expression.h`, `value.cpp`)

`Value::Divide` and `Value::Modulo` throw if the divisor is 0. No operation looks at whether its
result is an `int32_t`, and on signed integers one that is not has undefined behaviour. So a run
of `Evaluate` is modelled with its outcome here; where it returns, it returns what
`Expr.evaluate` gives.

- `Expr.toOption_evaluateOutcome`: the two models of `Evaluate` agree.
- `Expr.ends_evaluateOutcome`: how an evaluation ends, in terms of exact integers.
- `Expr.evaluateOutcome_exact_iff`: when it throws or gives the exact result.
-/

namespace OneBase

open Cpp

namespace Value

/-! ## The operations -/

/-- The member `integer_` of an INTEGER. -/
def integerField : Value → Int32
  | integer i => i
  | _ => 0

/-- The member `float_` of a FLOAT. -/
def floatField : Value → UInt32
  | float bits => bits
  | _ => 0

/-- The INTEGER that an operation on `int32_t`s gives, if its result is an `int32_t`. -/
def exactInteger (i : Int) : Outcome Value :=
  if IsInt32 i then .returns (integer (Int32.ofInt i)) else .undefined

/-- The five operations differ in what they do with integers and with floats. -/
def arithmeticOutcome (operation : String) (integers : Int → Int → Outcome Value)
    (floats : Option (UInt32 → UInt32 → Outcome Value)) (v o : Value) : Outcome Value :=
  if v.getTypeId ≠ o.getTypeId then .throws "Type mismatch in arithmetic"
  else
    match v.getTypeId, floats with
    | .integer, _ => integers v.integerField.toInt o.integerField.toInt
    | .float, some floats => floats v.floatField o.floatField
    | _, _ => .throws ("Unsupported type for " ++ operation)

/-- Floats have no undefined operation. -/
def floatResult (op : Float32 → Float32 → Float32) (a b : UInt32) : Outcome Value :=
  .returns (float (op (Float32.ofBits a) (Float32.ofBits b)).toBits)

/-- Model of `Add`. -/
def addOutcome : Value → Value → Outcome Value :=
  arithmeticOutcome "addition" (fun a b => exactInteger (a + b)) (some (floatResult (· + ·)))

/-- Model of `Subtract`. -/
def subtractOutcome : Value → Value → Outcome Value :=
  arithmeticOutcome "subtraction" (fun a b => exactInteger (a - b)) (some (floatResult (· - ·)))

/-- Model of `Multiply`. -/
def multiplyOutcome : Value → Value → Outcome Value :=
  arithmeticOutcome "multiplication" (fun a b => exactInteger (a * b))
    (some (floatResult (· * ·)))

/-- Model of `Divide`. -/
def divideOutcome : Value → Value → Outcome Value :=
  arithmeticOutcome "division"
    (fun a b => if b = 0 then .throws "Division by zero" else exactInteger (a.tdiv b))
    (some fun a b =>
      if floatKey b == 0 then .throws "Division by zero" else floatResult (· / ·) a b)

/-- Model of `Modulo`. It is undefined where the quotient is not an `int32_t`. -/
def moduloOutcome : Value → Value → Outcome Value :=
  arithmeticOutcome "modulo"
    (fun a b =>
      if b = 0 then .throws "Modulo by zero"
      else if IsInt32 (a.tdiv b) then exactInteger (a.tmod b)
      else .undefined)
    none

end Value

/-- Model of `PerformComputation`. -/
def ArithmeticType.performOutcome : ArithmeticType → Value → Value → Outcome Value
  | plus => Value.addOutcome
  | minus => Value.subtractOutcome
  | multiply => Value.multiplyOutcome
  | divide => Value.divideOutcome
  | modulo => Value.moduloOutcome

/-- Model of `PerformComparison`; on two values of one type it is always defined. -/
def ComparisonType.performOutcome (compType : ComparisonType) (l r : Value) : Outcome Value :=
  if l.getTypeId ≠ r.getTypeId then .throws "Type mismatch in comparison"
  else .ofOption "Unsupported type for comparison" (compType.perform l r)

/-- Model of `PerformLogic`. -/
def LogicType.performOutcome : LogicType → Value → Value → Outcome Value
  | and => fun l r => .ofOption "AND requires boolean" (l.and r)
  | or => fun l r => .ofOption "OR requires boolean" (l.or r)

namespace Expr

/-- The two evaluations differ in the columns; a column that is not there is undefined. -/
def evaluateOutcomeWith (column : Nat → Nat → Option Value) : Expr → Outcome Value
  | columnValue tupleIdx colIdx _ =>
    match column tupleIdx colIdx with
    | some v => .returns v
    | none => .undefined
  | constant val => .returns val
  | comparison left right compType =>
    (evaluateOutcomeWith column left).bind fun l =>
      (evaluateOutcomeWith column right).bind (compType.performOutcome l)
  | arithmetic left right arithType =>
    (evaluateOutcomeWith column left).bind fun l =>
      (evaluateOutcomeWith column right).bind (arithType.performOutcome l)
  | logic left right logicType =>
    (evaluateOutcomeWith column left).bind fun l =>
      (evaluateOutcomeWith column right).bind (logicType.performOutcome l)

/-- Model of `Evaluate`. -/
def evaluateOutcome (e : Expr) (tuple : Tuple) (schema : Schema) : Outcome Value :=
  e.evaluateOutcomeWith fun _ colIdx => tuple.getValue schema colIdx

end Expr

/-! ## The two models agree -/

namespace Value

theorem toOption_exactInteger (i : Int) : (exactInteger i).toOption = ofExact i := by
  unfold exactInteger ofExact
  split <;> rfl

theorem getAsInteger_of_type {v : Value} (h : v.getTypeId = .integer) :
    v.getAsInteger = some v.integerField := by
  cases v with
  | null type => subst h; rfl
  | integer i => rfl
  | boolean b => cases h
  | float bits => cases h
  | varchar s => cases h

theorem getAsFloat_of_type {v : Value} (h : v.getTypeId = .float) :
    v.getAsFloat = some v.floatField := by
  cases v with
  | null type => subst h; rfl
  | float bits => rfl
  | boolean b => cases h
  | integer i => cases h
  | varchar s => cases h

/-- The operations on values of one type, in the two models. -/
theorem toOption_arithmeticOutcome {operation : String} {integers : Int → Int → Outcome Value}
    {floats : Option (UInt32 → UInt32 → Outcome Value)} {exact : Int → Int → Option Int}
    {ops : Option (Float32 → Float32 → Float32)} {v o : Value}
    (hintegers : ∀ a b, (integers a b).toOption = (exact a b).bind ofExact)
    (hfloats : o.getTypeId = .float →
      (floats.map fun f => f v.floatField o.floatField) =
        ops.map fun op => floatResult op v.floatField o.floatField) :
    (arithmeticOutcome operation integers floats v o).toOption = arithmeticWith exact ops v o := by
  unfold arithmeticOutcome arithmeticWith
  by_cases htype : v.getTypeId = o.getTypeId
  · rw [if_neg (not_not_intro htype), if_neg (not_not_intro htype)]
    cases hv : v.getTypeId with
    | invalid => rfl
    | boolean => rfl
    | varchar => rfl
    | integer =>
      rw [getAsInteger_of_type hv, getAsInteger_of_type (htype ▸ hv)]
      exact hintegers _ _
    | float =>
      have hfloats := hfloats (htype ▸ hv)
      rw [getAsFloat_of_type hv, getAsFloat_of_type (htype ▸ hv)]
      cases floats with
      | none =>
        cases ops with
        | none => rfl
        | some op => cases hfloats
      | some f =>
        cases ops with
        | none => cases hfloats
        | some op => exact congrArg Outcome.toOption (Option.some.inj hfloats)
  · rw [if_pos htype, if_pos htype]
    rfl

theorem toOption_divideOutcome (v o : Value) : (divideOutcome v o).toOption = v.divide o := by
  unfold divideOutcome divide
  by_cases hzero : o.getTypeId = .float ∧ floatKey o.floatField = 0
  · have hdivisor : (o.getAsFloat.map fun b => floatKey b == 0) = some true := by
      rw [getAsFloat_of_type hzero.1, Option.map_some, hzero.2]
      rfl
    rw [if_pos ⟨hzero.1, hdivisor⟩]
    unfold arithmeticOutcome
    split
    · rfl
    · rename_i htype
      rw [not_not.mp htype, hzero.1]
      show Outcome.toOption (if floatKey o.floatField == 0 then _ else _) = none
      rw [hzero.2]
      rfl
  · have hdivisor : ¬ (o.getTypeId = .float ∧
        (o.getAsFloat.map fun b => floatKey b == 0) = some true) := by
      rintro ⟨htype, h⟩
      rw [getAsFloat_of_type htype] at h
      exact hzero ⟨htype, by simpa using h⟩
    rw [if_neg hdivisor]
    refine toOption_arithmeticOutcome (fun a b => ?_) fun htype => ?_
    · split
      · rfl
      · exact toOption_exactInteger _
    · have hne : floatKey o.floatField ≠ 0 := fun h => hzero ⟨htype, h⟩
      simp [hne]

theorem toOption_moduloOutcome (v o : Value) : (moduloOutcome v o).toOption = v.modulo o := by
  refine toOption_arithmeticOutcome (fun a b => ?_) fun _ => rfl
  by_cases hb : b = 0
  · simp [hb, Outcome.toOption]
  · by_cases hq : IsInt32 (a.tdiv b)
    · rw [if_neg hb, if_pos hq, if_neg (by simp [hb, hq])]
      exact toOption_exactInteger _
    · rw [if_neg hb, if_neg hq, if_pos (.inr hq)]
      rfl

end Value

theorem ArithmeticType.toOption_performOutcome (arithType : ArithmeticType) (v o : Value) :
    (arithType.performOutcome v o).toOption = arithType.perform v o := by
  cases arithType with
  | plus =>
    show (Value.addOutcome v o).toOption = v.add o
    refine Value.toOption_arithmeticOutcome (fun a b => ?_) fun _ => rfl
    exact Value.toOption_exactInteger _
  | minus =>
    show (Value.subtractOutcome v o).toOption = v.subtract o
    refine Value.toOption_arithmeticOutcome (fun a b => ?_) fun _ => rfl
    exact Value.toOption_exactInteger _
  | multiply =>
    show (Value.multiplyOutcome v o).toOption = v.multiply o
    refine Value.toOption_arithmeticOutcome (fun a b => ?_) fun _ => rfl
    exact Value.toOption_exactInteger _
  | divide => exact Value.toOption_divideOutcome v o
  | modulo => exact Value.toOption_moduloOutcome v o

theorem ComparisonType.toOption_performOutcome (compType : ComparisonType) (l r : Value) :
    (compType.performOutcome l r).toOption = compType.perform l r := by
  unfold performOutcome
  split
  · rename_i htype
    cases compType <;> exact (if_pos htype).symm
  · exact Outcome.toOption_ofOption _ _

theorem LogicType.toOption_performOutcome (logicType : LogicType) (l r : Value) :
    (logicType.performOutcome l r).toOption = logicType.perform l r := by
  cases logicType <;> exact Outcome.toOption_ofOption _ _

namespace Expr

variable {column : Nat → Nat → Option Value}

theorem toOption_evaluateOutcomeWith (e : Expr) :
    (e.evaluateOutcomeWith column).toOption = e.evaluateWith column := by
  induction e with
  | columnValue tupleIdx colIdx retType =>
    rw [evaluateOutcomeWith, evaluateWith]
    split
    · rename_i v hv
      exact hv.symm
    · rename_i hnone
      exact hnone.symm
  | constant val => rfl
  | comparison left right compType ihl ihr =>
    exact Outcome.toOption_bind₂ ihl ihr compType.toOption_performOutcome
  | arithmetic left right arithType ihl ihr =>
    exact Outcome.toOption_bind₂ ihl ihr arithType.toOption_performOutcome
  | logic left right logicType ihl ihr =>
    exact Outcome.toOption_bind₂ ihl ihr logicType.toOption_performOutcome

/-- **The two models of `Evaluate`** give the same value. -/
theorem toOption_evaluateOutcome (e : Expr) (tuple : Tuple) (schema : Schema) :
    (e.evaluateOutcome tuple schema).toOption = e.evaluate tuple schema :=
  toOption_evaluateOutcomeWith e

end Expr

/-! ## Exact integers -/

namespace ArithmeticType

/-- The exact result of an operation, with truncating division. -/
def exact : ArithmeticType → Int → Int → Option Int
  | plus, a, b => some (a + b)
  | minus, a, b => some (a - b)
  | multiply, a, b => some (a * b)
  | divide, a, b => if b = 0 then none else some (a.tdiv b)
  | modulo, a, b => if b = 0 then none else some (a.tmod b)

/-- Two `int32_t`s for which the operation is defined or throws. -/
def Fits : ArithmeticType → Int → Int → Prop
  | plus, a, b => IsInt32 (a + b)
  | minus, a, b => IsInt32 (a - b)
  | multiply, a, b => IsInt32 (a * b)
  | divide, a, b => b = 0 ∨ IsInt32 (a.tdiv b)
  | modulo, a, b => b = 0 ∨ IsInt32 (a.tdiv b)

end ArithmeticType

/-- How an evaluation ends whose exact result is `exact`: it is undefined if one of its
operations does not fit, and it throws if there is no result. -/
inductive Ends (exact : Option Int) (fits : Prop) : Outcome Value → Prop where
  | returns {v : Value} (hfits : fits) (hexact : exact = some v.integerField.toInt)
      (htype : v.getTypeId = .integer) : Ends exact fits (.returns v)
  | throws {what : String} (hfits : fits) (hexact : exact = none) : Ends exact fits (.throws what)
  | undefined (hfits : ¬ fits) : Ends exact fits .undefined

/-- What the evaluation is to do: throw, or give the exact result. -/
def ThrowsOrExact (exact : Option Int) (outcome : Outcome Value) : Prop :=
  (∃ what, outcome = .throws what) ∨
    ∃ v i, outcome = .returns v ∧ v.getTypeId = .integer ∧ v.getAsInteger = some i ∧
      exact = some i.toInt

namespace Ends

variable {exact : Option Int} {fits fits' : Prop} {outcome : Outcome Value}

theorem throwsOrExact_iff (h : Ends exact fits outcome) : ThrowsOrExact exact outcome ↔ fits := by
  cases h with
  | returns hfits hexact htype =>
    exact iff_of_true (.inr ⟨_, _, rfl, htype, Value.getAsInteger_of_type htype, hexact⟩) hfits
  | throws hfits hexact => exact iff_of_true (.inl ⟨_, rfl⟩) hfits
  | undefined hfits =>
    refine iff_of_false ?_ hfits
    rintro (⟨what, h⟩ | ⟨v, i, h, -⟩)
    · cases h
    · cases h

theorem congr (hiff : fits ↔ fits') (h : Ends exact fits outcome) : Ends exact fits' outcome := by
  rwa [← propext hiff]

/-- A result that fits is returned. -/
theorem exactInteger (i : Int) : Ends (some i) (IsInt32 i) (Value.exactInteger i) := by
  unfold Value.exactInteger
  split
  · rename_i hfits
    refine .returns hfits (congrArg some ?_) rfl
    exact (Int32.toInt_ofInt_of_le hfits.1 hfits.2).symm
  · rename_i hfits
    exact .undefined hfits

end Ends

theorem isInt32_toInt (i : Int32) : IsInt32 i.toInt := ⟨i.le_toInt, i.toInt_lt⟩

/-- A remainder fits. -/
theorem isInt32_tmod {a b : Int} (hb : b ≠ 0) (hrange : IsInt32 b) : IsInt32 (a.tmod b) := by
  have hlt : (a.tmod b).natAbs < b.natAbs := by
    rw [Int.natAbs_tmod]
    exact Nat.mod_lt _ (Int.natAbs_pos.mpr hb)
  unfold IsInt32 at hrange ⊢
  omega

/-- **One operation.** -/
theorem ArithmeticType.ends_performOutcome (arithType : ArithmeticType) {v o : Value}
    (hv : v.getTypeId = .integer) (ho : o.getTypeId = .integer) :
    Ends (arithType.exact v.integerField.toInt o.integerField.toInt)
      (arithType.Fits v.integerField.toInt o.integerField.toInt)
      (arithType.performOutcome v o) := by
  have hinteger : ∀ operation integers floats,
      Value.arithmeticOutcome operation integers floats v o =
        integers v.integerField.toInt o.integerField.toInt := by
    intro operation integers floats
    unfold Value.arithmeticOutcome
    rw [hv, ho]
    rfl
  cases arithType with
  | plus =>
    show Ends _ _ (Value.addOutcome v o)
    rw [Value.addOutcome, hinteger]
    exact .exactInteger _
  | minus =>
    show Ends _ _ (Value.subtractOutcome v o)
    rw [Value.subtractOutcome, hinteger]
    exact .exactInteger _
  | multiply =>
    show Ends _ _ (Value.multiplyOutcome v o)
    rw [Value.multiplyOutcome, hinteger]
    exact .exactInteger _
  | divide =>
    show Ends (if _ then _ else _) (_ ∨ _) (Value.divideOutcome v o)
    rw [Value.divideOutcome, hinteger]
    split
    · rename_i hzero
      exact .throws (.inl hzero) rfl
    · rename_i hne
      exact (Ends.exactInteger _).congr (or_iff_right hne).symm
  | modulo =>
    show Ends (if _ then _ else _) (_ ∨ _) (Value.moduloOutcome v o)
    rw [Value.moduloOutcome, hinteger]
    split
    · rename_i hzero
      exact .throws (.inl hzero) rfl
    · rename_i hne
      split
      · rename_i hquotient
        refine (Ends.exactInteger _).congr (iff_of_true ?_ (.inr hquotient))
        exact isInt32_tmod hne (isInt32_toInt _)
      · rename_i hquotient
        exact .undefined fun h => h.elim hne hquotient

/-! ## Trees -/

namespace Expr

section

variable (column : Nat → Nat → Option Value)

/-- The exact value of an arithmetic tree; there is none if a divisor is 0. A NULL counts as the
0 that it has in `integer_`. -/
def exactWith : Expr → Option Int
  | columnValue tupleIdx colIdx _ =>
    (column tupleIdx colIdx).bind fun v => v.getAsInteger.map Int32.toInt
  | constant val => val.getAsInteger.map Int32.toInt
  | arithmetic left right arithType =>
    (exactWith left).bind fun a => (exactWith right).bind (arithType.exact a)
  | comparison _ _ _ => none
  | logic _ _ _ => none

/-- All operations fit, up to the first divisor that is 0. -/
def FitsWith : Expr → Prop
  | arithmetic left right arithType =>
    FitsWith left ∧ ∀ a, exactWith column left = some a →
      FitsWith right ∧ ∀ b, exactWith column right = some b → arithType.Fits a b
  | _ => True

/-- The tree has INTEGERs at its leaves. -/
def IntegersWith : Expr → Prop
  | columnValue tupleIdx colIdx _ =>
    ∃ v, column tupleIdx colIdx = some v ∧ v.getTypeId = .integer
  | constant val => val.getTypeId = .integer
  | arithmetic left right _ => IntegersWith left ∧ IntegersWith right
  | comparison _ _ _ => False
  | logic _ _ _ => False

end

variable {column : Nat → Nat → Option Value}

theorem ends_leaf {v : Value} (h : v.getTypeId = .integer) :
    Ends (v.getAsInteger.map Int32.toInt) True (.returns v) :=
  .returns trivial (by rw [Value.getAsInteger_of_type h, Option.map_some]) h

/-- **How an evaluation ends**, by the exact values of the subtrees. -/
theorem ends_evaluateOutcomeWith {e : Expr} (h : e.IntegersWith column) :
    Ends (e.exactWith column) (e.FitsWith column) (e.evaluateOutcomeWith column) := by
  induction e with
  | columnValue tupleIdx colIdx retType =>
    obtain ⟨v, hv, htype⟩ := h
    rw [evaluateOutcomeWith, exactWith, hv, Option.bind_some]
    exact ends_leaf htype
  | constant val => exact ends_leaf h
  | comparison => exact h.elim
  | logic => exact h.elim
  | arithmetic left right arithType ihl ihr =>
    rw [evaluateOutcomeWith, exactWith, FitsWith]
    have hleft := ihl h.1
    have hright := ihr h.2
    -- the left operand is evaluated first, and the right one only if it returns
    generalize evaluateOutcomeWith column left = leftOutcome at hleft
    generalize evaluateOutcomeWith column right = rightOutcome at hright
    cases hleft with
    | undefined hfits =>
      rw [Outcome.bind_undefined]
      exact .undefined fun hboth => hfits hboth.1
    | throws hfits hexact =>
      rw [hexact, Outcome.bind_throws, Option.bind_none]
      exact .throws ⟨hfits, fun a ha => by cases ha⟩ rfl
    | @returns v hfits hexact htype =>
      rw [hexact, Outcome.bind_returns, Option.bind_some]
      cases hright with
      | undefined hfits' =>
        rw [Outcome.bind_undefined]
        exact .undefined fun hboth => hfits' (hboth.2 _ rfl).1
      | throws hfits' hexact' =>
        rw [hexact', Outcome.bind_throws, Option.bind_none]
        refine .throws ⟨hfits, fun a _ => ⟨hfits', fun b hb => by cases hb⟩⟩ rfl
      | @returns o hfits' hexact' htype' =>
        rw [hexact', Outcome.bind_returns, Option.bind_some]
        refine (arithType.ends_performOutcome htype htype').congr ⟨fun hop => ?_, fun hboth => ?_⟩
        · refine ⟨hfits, fun a ha => ⟨hfits', fun b hb => ?_⟩⟩
          obtain rfl := Option.some.inj ha
          obtain rfl := Option.some.inj hb
          exact hop
        · exact (hboth.2 _ rfl).2 _ rfl

/-- A tree of arithmetic nodes over INTEGER columns of the schema and INTEGER constants. -/
def IsArithmetic (schema : Schema) : Expr → Prop
  | columnValue _ colIdx _ => ∃ col, schema.getColumn colIdx = some col ∧ col.type = .integer
  | constant val => val.getTypeId = .integer
  | arithmetic left right _ => IsArithmetic schema left ∧ IsArithmetic schema right
  | comparison _ _ _ => False
  | logic _ _ _ => False

/-- The exact value of the tree for a row. -/
def exact (e : Expr) (tuple : Tuple) (schema : Schema) : Option Int :=
  e.exactWith fun _ colIdx => tuple.getValue schema colIdx

/-- The operations fit that the tree comes to for a row. -/
def Fits (e : Expr) (tuple : Tuple) (schema : Schema) : Prop :=
  e.FitsWith fun _ colIdx => tuple.getValue schema colIdx

end Expr

/-- A row of a table: an INTEGER column has an INTEGER. -/
def IntegerRow (schema : Schema) (tuple : Tuple) : Prop :=
  ∀ i col, schema.getColumn i = some col → col.type = .integer →
    ∃ v, tuple.getValue schema i = some v ∧ v.getTypeId = .integer

namespace Expr

variable {e : Expr} {schema : Schema} {tuple : Tuple}

theorem IsArithmetic.integersWith (h : e.IsArithmetic schema) (hrow : IntegerRow schema tuple) :
    e.IntegersWith fun _ colIdx => tuple.getValue schema colIdx := by
  induction e with
  | columnValue tupleIdx colIdx retType =>
    obtain ⟨col, hcol, htype⟩ := h
    exact hrow colIdx col hcol htype
  | constant val => exact h
  | comparison => exact h.elim
  | logic => exact h.elim
  | arithmetic left right arithType ihl ihr => exact ⟨ihl h.1, ihr h.2⟩

/-- **When arithmetic throws or is exact**: no operation before the first divisor that is 0
leaves the `int32_t`s. -/
theorem evaluateOutcome_exact_iff (h : e.IsArithmetic schema) (hrow : IntegerRow schema tuple) :
    ThrowsOrExact (e.exact tuple schema) (e.evaluateOutcome tuple schema) ↔ e.Fits tuple schema :=
  (ends_evaluateOutcomeWith (h.integersWith hrow)).throwsOrExact_iff

/-- The table `t (a INTEGER)` with the row `(i)`. -/
def oneInteger : Schema := ⟨[⟨"a", .integer, 0, 0⟩]⟩

theorem integerRow_oneInteger (i : Int32) :
    IntegerRow oneInteger { values := [.integer i] } := by
  intro j col hcol _
  have hj : j < 1 := (List.getElem?_eq_some_iff.mp hcol).1
  obtain rfl := Nat.lt_one_iff.mp hj
  exact ⟨.integer i, rfl, rfl⟩

/-- `a + 1`. -/
def increment : Expr := .arithmetic (.columnValue 0 0 .integer) (.constant (.integer 1)) .plus

/-- `a + 1` for the row `(41)`. -/
theorem evaluateOutcome_exact_small :
    ThrowsOrExact (some 42) (increment.evaluateOutcome { values := [.integer 41] } oneInteger) := by
  have htree : increment.IsArithmetic oneInteger := ⟨⟨_, rfl, rfl⟩, rfl⟩
  refine (evaluateOutcome_exact_iff htree (integerRow_oneInteger 41)).mpr ?_
  refine ⟨trivial, fun a ha => ⟨trivial, fun b hb => ?_⟩⟩
  obtain rfl := Option.some.inj ha
  obtain rfl := Option.some.inj hb
  show IsInt32 _
  decide

/-- `a + 1` for the row `(2147483647)` is undefined. -/
theorem evaluateOutcome_overflow : ¬ ∀ (e : Expr) (schema : Schema) (tuple : Tuple),
    e.IsArithmetic schema → IntegerRow schema tuple →
    ThrowsOrExact (e.exact tuple schema) (e.evaluateOutcome tuple schema) := by
  intro h
  have hundefined : increment.evaluateOutcome { values := [.integer 2147483647] } oneInteger =
      .undefined := by decide
  obtain ⟨what, hthrows⟩ | ⟨v, i, hreturns, -⟩ :=
    h increment oneInteger { values := [.integer 2147483647] } ⟨⟨_, rfl, rfl⟩, rfl⟩
      (integerRow_oneInteger 2147483647)
  · rw [hundefined] at hthrows
    cases hthrows
  · rw [hundefined] at hreturns
    cases hreturns

end Expr

end OneBase
