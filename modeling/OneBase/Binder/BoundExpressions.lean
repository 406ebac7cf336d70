import OneBase.Binder.Binder

/-!
# Null pointers in bound expressions (`binder/binder.cpp`)

`BindExpression` gives a null pointer for an operand that is not there and for a star. An
operator takes its operands as they are, so the expression of `-a` or of `a = t.*` has a null
child, which `Evaluate` and `EvaluateJoin` dereference.

- `isSome_bindExpression`: which parse trees are bound at all.
- `wellFormed_iff_complete`: which of them give an expression without null pointers.
- `bindExpression_wellFormed_iff`: when the binder throws or gives such an expression.
-/

namespace OneBase

namespace ExpressionRef

/-- Not null, and no operator has a child that is null. -/
def WellFormed : ExpressionRef → Prop
  | null => False
  | columnValue _ _ _ => True
  | constant _ => True
  | comparison left right _ => WellFormed left ∧ WellFormed right
  | arithmetic left right _ => WellFormed left ∧ WellFormed right
  | logic left right _ => WellFormed left ∧ WellFormed right

/-- **No null pointer is dereferenced**: the expression is evaluated like a tree without any. -/
theorem WellFormed.exists_toExpr {e : ExpressionRef} (h : e.WellFormed) :
    ∃ tree, e.toExpr = some tree := by
  induction e with
  | null => exact h.elim
  | columnValue => exact ⟨_, rfl⟩
  | constant => exact ⟨_, rfl⟩
  | comparison left right compType ihl ihr =>
    obtain ⟨l, hl⟩ := ihl h.1
    obtain ⟨r, hr⟩ := ihr h.2
    exact ⟨.comparison l r compType, by rw [toExpr, hl, hr]; rfl⟩
  | arithmetic left right arithType ihl ihr =>
    obtain ⟨l, hl⟩ := ihl h.1
    obtain ⟨r, hr⟩ := ihr h.2
    exact ⟨.arithmetic l r arithType, by rw [toExpr, hl, hr]; rfl⟩
  | logic left right logicType ihl ihr =>
    obtain ⟨l, hl⟩ := ihl h.1
    obtain ⟨r, hr⟩ := ihr h.2
    exact ⟨.logic l r logicType, by rw [toExpr, hl, hr]; rfl⟩

end ExpressionRef

/-! ## Conditions on parse trees -/

mutual

/-- The expressions that the parser makes of columns, constants, operators, AND and OR: a star
comes last in a reference, and a prefix operator has no left operand. -/
def PGNode.IsExpression : PGNode → Prop
  | .columnRef fields => fields ≠ [] ∧ .star ∉ fields.dropLast
  | .aConst _ => True
  | .aExpr _ .null rexpr => rexpr.IsExpression
  | .aExpr _ lexpr rexpr => lexpr.IsExpression ∧ rexpr.IsExpression
  | .boolExpr .and args => args ≠ [] ∧ AreExpressions args
  | .boolExpr .or args => args ≠ [] ∧ AreExpressions args
  | _ => False

def AreExpressions : List PGNode → Prop
  | [] => True
  | arg :: args => arg.IsExpression ∧ AreExpressions args

end

/-- A star, with or without a table. -/
def IsStar (fields : List PGField) : Prop :=
  fields = [.star] ∨ ∃ table, fields = [.string table, .star]

mutual

/-- No operand is missing, and none is a star. -/
def PGNode.Complete : PGNode → Prop
  | .null => False
  | .columnRef fields => ¬ IsStar fields
  | .aExpr _ lexpr rexpr => lexpr.Complete ∧ rexpr.Complete
  | .boolExpr _ args => CompleteArgs args
  | _ => True

def CompleteArgs : List PGNode → Prop
  | [] => True
  | arg :: args => arg.Complete ∧ CompleteArgs args

end

/-- A table of the scopes that the qualifier allows has a column of the name. -/
def HasColumn (scopes : List TableScope) (colName tableQualifier : String) : Prop :=
  ∃ scope ∈ scopes, (tableQualifier = "" ∨ tableQualifier = scope.aliasName) ∧
    ∃ col ∈ scope.schema.given, col.name = colName

/-- The operators that `BindAExpr` knows. -/
def operators : List String := ["=", "<>", "!=", "<", "<=", ">", ">=", "+", "-", "*", "/", "%"]

/-- The column that a reference names is there; a star names none. -/
def BindableColumn (scopes : List TableScope) : List PGField → Prop
  | [.string colName] => HasColumn scopes colName ""
  | [.star] => True
  | [.string _, .star] => True
  | [.string tableQualifier, .string colName] => HasColumn scopes colName tableQualifier
  | [.star, _] => False
  | _ => HasColumn scopes "" ""

/-- A constant of a type that the binder knows. -/
def BindableConstant (stof : String → Option UInt32) : PGValue → Prop
  | .integer _ => True
  | .float str => (stof str).isSome
  | .string _ => True
  | .other => False

section

variable (stof : String → Option UInt32) (scopes : List TableScope)

mutual

/-- Every column, constant and operator of the tree is accepted. -/
def Bindable : PGNode → Prop
  | .null => True
  | .columnRef fields => BindableColumn scopes fields
  | .aConst val => BindableConstant stof val
  | .aExpr name lexpr rexpr => Bindable lexpr ∧ Bindable rexpr ∧ name ∈ operators
  | .boolExpr .and args => args ≠ [] ∧ BindableArgs args
  | .boolExpr .or args => args ≠ [] ∧ BindableArgs args
  | _ => False

def BindableArgs : List PGNode → Prop
  | [] => True
  | arg :: args => Bindable arg ∧ BindableArgs args

end

variable {stof scopes}

/-! ## What is bound at all -/

theorem isSome_resolveColumn {colName tableQualifier : String} :
    (resolveColumn colName tableQualifier scopes).isSome ↔
      HasColumn scopes colName tableQualifier := by
  unfold HasColumn
  induction scopes with
  | nil => simp [resolveColumn]
  | cons scope scopes ih =>
    rw [resolveColumn, List.exists_mem_cons_iff]
    by_cases hother : tableQualifier ≠ "" ∧ tableQualifier ≠ scope.aliasName
    · rw [if_pos hother, ih, or_iff_right]
      rintro ⟨hempty | hname, -⟩
      · exact hother.1 hempty
      · exact hother.2 hname
    · have hallowed : tableQualifier = "" ∨ tableQualifier = scope.aliasName := by
        by_contra h
        exact hother (not_or.mp h)
      rw [if_neg hother]
      cases hfind : scope.schema.given.findIdx? fun col => col.name == colName with
      | some i =>
        obtain ⟨hi, hname, -⟩ := List.findIdx?_eq_some_iff_getElem.mp hfind
        dsimp only
        rw [Option.isSome_map, Schema.getColumn_eq, List.getElem?_eq_getElem hi]
        refine iff_of_true rfl (.inl ⟨hallowed, _, List.getElem_mem hi, by simpa using hname⟩)
      | none =>
        dsimp only
        rw [ih, or_iff_right]
        rintro ⟨-, col, hcol, hname⟩
        have hnone := List.findIdx?_eq_none_iff.mp hfind col hcol
        rw [hname] at hnone
        simp at hnone

theorem isSome_bindName {colName tableQualifier : String} :
    (bindName scopes colName tableQualifier).isSome ↔ HasColumn scopes colName tableQualifier := by
  rw [bindName, Option.isSome_map, isSome_resolveColumn]

theorem isSome_bindColumnRef : ∀ {fields : List PGField},
    (bindColumnRef scopes fields).isSome ↔ BindableColumn scopes fields
  | [.string _] => isSome_bindName
  | [.star] => iff_of_true rfl trivial
  | [.string _, .star] => iff_of_true rfl trivial
  | [.string _, .string _] => isSome_bindName
  | [.star, _] => iff_of_false Bool.false_ne_true id
  | [] => isSome_bindName
  | .star :: _ :: _ :: _ => isSome_bindName
  | .string _ :: .star :: _ :: _ => isSome_bindName
  | .string _ :: .string _ :: _ :: _ => isSome_bindName

theorem isSome_bindConstant {val : PGValue} :
    (bindConstant stof val).isSome ↔ BindableConstant stof val := by
  cases val with
  | integer ival => exact iff_of_true rfl trivial
  | float str => rw [bindConstant, Option.isSome_map, BindableConstant]
  | string str => exact iff_of_true rfl trivial
  | other => exact iff_of_false Bool.false_ne_true id

theorem isSome_if {α : Type} {p : Prop} [Decidable p] {a : α} {x : Option α} :
    (if p then some a else x).isSome ↔ p ∨ x.isSome := by
  split <;> simp [*]

theorem isSome_bindOperator {opName : String} {left right : ExpressionRef} :
    (bindOperator opName left right).isSome ↔ opName ∈ operators := by
  unfold bindOperator operators
  simp only [isSome_if, Option.isSome_none, Bool.false_eq_true, List.mem_cons, List.not_mem_nil,
    or_assoc]

mutual

/-- **What is bound at all.** -/
theorem isSome_bindExpression :
    ∀ {node : PGNode}, (bindExpression stof scopes node).isSome ↔ Bindable stof scopes node
  | .null => iff_of_true rfl (by rw [Bindable]; trivial)
  | .columnRef fields => by
    rw [bindExpression, Bindable]
    exact isSome_bindColumnRef
  | .aConst val => by
    rw [bindExpression, Bindable]
    exact isSome_bindConstant
  | .aExpr name lexpr rexpr => by
    rw [bindExpression, Bindable, ← isSome_bindExpression, ← isSome_bindExpression]
    cases bindExpression stof scopes lexpr with
    | none => simp
    | some left =>
      cases bindExpression stof scopes rexpr with
      | none => simp
      | some right => simpa using isSome_bindOperator
  | .boolExpr .and args => by
    rw [bindExpression, Bindable]
    exact isSome_bindArgs
  | .boolExpr .or args => by
    rw [bindExpression, Bindable]
    exact isSome_bindArgs
  | .boolExpr .not args => by simp [bindExpression, Bindable]
  | .funcCall .. => by simp [bindExpression, Bindable]
  | .aStar => by simp [bindExpression, Bindable]
  | .other => by simp [bindExpression, Bindable]

theorem isSome_bindArgs {type : LogicType} :
    ∀ {args : List PGNode}, (bindArgs stof scopes type args).isSome ↔
      args ≠ [] ∧ BindableArgs stof scopes args
  | [] => by simp [bindArgs]
  | arg :: args => by
    rw [bindArgs, BindableArgs, ← isSome_bindExpression]
    cases bindExpression stof scopes arg with
    | none => simp
    | some first => simpa using isSome_bindMore

theorem isSome_bindMore {type : LogicType} :
    ∀ {args : List PGNode} {result : ExpressionRef},
      (bindMore stof scopes type args result).isSome ↔ BindableArgs stof scopes args
  | [], result => by
    rw [bindMore, BindableArgs]
    exact iff_of_true rfl trivial
  | arg :: args, result => by
    rw [bindMore, BindableArgs, ← isSome_bindExpression]
    cases bindExpression stof scopes arg with
    | none => simp
    | some right => simpa using isSome_bindMore

end

/-! ## What is bound to an expression without null pointers -/

theorem wellFormed_bindName {colName tableQualifier : String} {ref : ExpressionRef}
    (h : bindName scopes colName tableQualifier = some ref) : ref.WellFormed := by
  obtain ⟨⟨tupleIdx, colIdx, type⟩, -, rfl⟩ := Option.map_eq_some_iff.mp h
  trivial

theorem wellFormed_bindColumnRef {ref : ExpressionRef} :
    ∀ {fields : List PGField}, bindColumnRef scopes fields = some ref →
      (ref.WellFormed ↔ ¬ IsStar fields)
  | [.string _], h => iff_of_true (wellFormed_bindName h) (by simp [IsStar])
  | [.star], h => by
    obtain rfl := Option.some.inj h
    exact iff_of_false id (not_not_intro (.inl rfl))
  | [.string table, .star], h => by
    obtain rfl := Option.some.inj h
    exact iff_of_false id (not_not_intro (.inr ⟨table, rfl⟩))
  | [.string _, .string _], h => iff_of_true (wellFormed_bindName h) (by simp [IsStar])
  | [.star, _], h => by cases h
  | [], h => iff_of_true (wellFormed_bindName h) (by simp [IsStar])
  | .star :: _ :: _ :: _, h => iff_of_true (wellFormed_bindName h) (by simp [IsStar])
  | .string _ :: .star :: _ :: _, h => iff_of_true (wellFormed_bindName h) (by simp [IsStar])
  | .string _ :: .string _ :: _ :: _, h => iff_of_true (wellFormed_bindName h) (by simp [IsStar])

theorem wellFormed_bindConstant {val : PGValue} {ref : ExpressionRef}
    (h : bindConstant stof val = some ref) : ref.WellFormed := by
  cases val with
  | integer ival => cases h; trivial
  | float str =>
    obtain ⟨bits, -, rfl⟩ := Option.map_eq_some_iff.mp h
    trivial
  | string str => cases h; trivial
  | other => cases h

theorem wellFormed_bindOperator {opName : String} {left right ref : ExpressionRef}
    (h : bindOperator opName left right = some ref) :
    ref.WellFormed ↔ left.WellFormed ∧ right.WellFormed := by
  obtain ⟨compType, rfl⟩ | ⟨arithType, rfl⟩ := bindOperator_cases h
  · rw [ExpressionRef.WellFormed]
  · rw [ExpressionRef.WellFormed]

mutual

/-- **What is bound to an expression without null pointers.** -/
theorem wellFormed_iff_complete :
    ∀ {node : PGNode} {ref : ExpressionRef}, bindExpression stof scopes node = some ref →
      (ref.WellFormed ↔ node.Complete)
  | .null, ref, h => by
    cases h
    exact iff_of_false id (by rw [PGNode.Complete]; exact id)
  | .columnRef fields, ref, h => by
    rw [PGNode.Complete]
    exact wellFormed_bindColumnRef h
  | .aConst val, ref, h => iff_of_true (wellFormed_bindConstant h) (by simp [PGNode.Complete])
  | .aExpr name lexpr rexpr, ref, h => by
    rw [bindExpression] at h
    obtain ⟨left, hleft, h⟩ := Option.bind_eq_some_iff.mp h
    obtain ⟨right, hright, h⟩ := Option.bind_eq_some_iff.mp h
    rw [PGNode.Complete, wellFormed_bindOperator h, wellFormed_iff_complete hleft,
      wellFormed_iff_complete hright]
  | .boolExpr .and args, ref, h => by
    rw [PGNode.Complete]
    exact wellFormed_bindArgs h
  | .boolExpr .or args, ref, h => by
    rw [PGNode.Complete]
    exact wellFormed_bindArgs h
  | .boolExpr .not args, ref, h => by cases h
  | .funcCall .., ref, h => by cases h
  | .aStar, ref, h => by cases h
  | .other, ref, h => by cases h

theorem wellFormed_bindArgs {type : LogicType} :
    ∀ {args : List PGNode} {ref : ExpressionRef}, bindArgs stof scopes type args = some ref →
      (ref.WellFormed ↔ CompleteArgs args)
  | [], ref, h => by cases h
  | arg :: args, ref, h => by
    rw [bindArgs] at h
    obtain ⟨first, hfirst, h⟩ := Option.bind_eq_some_iff.mp h
    rw [CompleteArgs, wellFormed_bindMore h, wellFormed_iff_complete hfirst]

/-- What is folded so far stays a part of the expression. -/
theorem wellFormed_bindMore {type : LogicType} :
    ∀ {args : List PGNode} {result ref : ExpressionRef},
      bindMore stof scopes type args result = some ref →
      (ref.WellFormed ↔ result.WellFormed ∧ CompleteArgs args)
  | [], result, ref, h => by
    rw [bindMore] at h
    cases h
    rw [CompleteArgs, and_true]
  | arg :: args, result, ref, h => by
    rw [bindMore] at h
    obtain ⟨right, hright, h⟩ := Option.bind_eq_some_iff.mp h
    rw [wellFormed_bindMore h, ExpressionRef.WellFormed, wellFormed_iff_complete hright,
      CompleteArgs, and_assoc]

end

/-- **When the binder throws or gives an expression without null pointers**: no operand is
missing or a star, or some other part of the tree is rejected. -/
theorem bindExpression_wellFormed_iff (stof : String → Option UInt32) (scopes : List TableScope)
    (node : PGNode) :
    (bindExpression stof scopes node = none ∨
        ∃ ref, bindExpression stof scopes node = some ref ∧ ref.WellFormed) ↔
      node.Complete ∨ ¬ Bindable stof scopes node := by
  rw [← isSome_bindExpression]
  cases hbind : bindExpression stof scopes node with
  | none => simp
  | some ref => simp [wellFormed_iff_complete hbind]

/-- The parse tree of `-a` over `t (a INTEGER)` is bound to an expression with a null child. -/
theorem bindExpression_prefix : ¬ ∀ (stof : String → Option UInt32) (scopes : List TableScope)
    (node : PGNode), node.IsExpression → bindExpression stof scopes node = none ∨
      ∃ ref, bindExpression stof scopes node = some ref ∧ ref.WellFormed := by
  intro h
  have hshape : (PGNode.aExpr "-" .null (.columnRef [.string "a"])).IsExpression := by
    simp [PGNode.IsExpression]
  have hbind : bindExpression (fun _ => none) [⟨"t", ⟨[⟨"a", .integer, 0, 0⟩]⟩, 0⟩]
      (.aExpr "-" .null (.columnRef [.string "a"])) =
        some (.arithmetic .null (.columnValue 0 0 .integer) .minus) := by
    simp [bindExpression, bindColumnRef, bindName, resolveColumn, Schema.getColumn,
      Schema.columns, Schema.setOffsets, bindOperator, List.findIdx?_cons]
  obtain hnone | ⟨ref, hsome, hwellFormed⟩ :=
    h (fun _ => none) [⟨"t", ⟨[⟨"a", .integer, 0, 0⟩]⟩, 0⟩] _ hshape
  · rw [hbind] at hnone
    cases hnone
  · rw [hbind] at hsome
    obtain rfl := Option.some.inj hsome
    exact hwellFormed.1

end

end OneBase
