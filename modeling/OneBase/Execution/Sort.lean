import Mathlib.Data.List.Lex
import Mathlib.Data.Sum.Order
import OneBase.Execution.Materialize
import OneBase.Lib.LexOrder

/-!
# The sort executor (`sort_executor.cpp`)

`Init` reads all rows of the child and calls `std::sort` with a comparator that
evaluates the ORDER BY items one after the other.

- `sortLess_eq`: on rows whose items are INTEGER or VARCHAR values the comparator is a
  comparison by keys.
- `yields_sorted`: so it is a strict weak ordering, and the executor yields the rows of
  its child in an order in which no row is after a later one.
-/

namespace OneBase

open Cpp

/-- Model of `SortPlanNode`; an item of ORDER BY is a direction and an expression. -/
structure SortPlan where
  outputSchema : Schema
  orderBys : List (Bool × Expr)

/-- The comparator that `Init` passes to `std::sort`. -/
def sortLess (schema : Schema) : List (Bool × Expr) → Tuple → Tuple → Option Bool
  | [], _, _ => some false
  | (isAscending, expr) :: orderBys, a, b =>
    (expr.evaluate a schema).bind fun valA =>
      (expr.evaluate b schema).bind fun valB =>
        ((valA.compareLessThan valB).bind Value.isTrue).bind fun less =>
          if less then some isAscending
          else
            ((valB.compareLessThan valA).bind Value.isTrue).bind fun greater =>
              if greater then some (!isAscending) else sortLess schema orderBys a b

namespace SortPlan

/-- The executor; its loop gets the fuel. -/
def executor {σ : Type} (plan : SortPlan) (std : StdSort Tuple) (child : Executor σ)
    (fuel : Nat) : Executor (Materialized σ) :=
  Materialized.executor child (fun tuples tuple => some (tuples ++ [tuple])) []
    (std.sort (sortLess child.outputSchema plan.orderBys)) fuel plan.outputSchema

end SortPlan

/-! ## Values as keys -/

/-- What values are sorted by: a number, or the numbers of the bytes of a string. -/
abbrev SortKey := Int ⊕ₗ List Nat

/-- The key of a value. A NULL is sorted by its payload, which is 0 or the empty string. -/
def sortKey (v : Value) : SortKey :=
  match v.getAsInteger, v.getAsString with
  | some i, _ => toLex (.inl i.toInt)
  | none, some s => toLex (.inr (s.map UInt8.toNat))
  | none, none => toLex (.inl 0)

/-- Strings are ordered by the numbers of their bytes. -/
theorem lt_iff_map_toNat_lt (s t : List UInt8) : s < t ↔ s.map UInt8.toNat < t.map UInt8.toNat := by
  induction s generalizing t with
  | nil => cases t <;> simp
  | cons a s ih =>
    cases t with
    | nil => simp
    | cons b t => simp [List.cons_lt_cons_iff, ih, UInt8.lt_iff_toNat_lt, UInt8.toNat_inj]

/-- INTEGER values are compared by their keys. -/
theorem compareLessThan_of_integer {v o : Value} (hv : v.getTypeId = .integer)
    (ho : o.getTypeId = .integer) :
    v.compareLessThan o = some (.boolean (decide (sortKey v < sortKey o))) := by
  have hpayload : ∀ {v : Value}, v.getTypeId = .integer → ∃ i, v.getAsInteger = some i := by
    intro v hv
    cases v with
    | integer i => exact ⟨i, rfl⟩
    | null type =>
      cases hv
      exact ⟨0, rfl⟩
    | boolean => cases hv
    | float => cases hv
    | varchar => cases hv
  obtain ⟨i, hi⟩ := hpayload hv
  obtain ⟨j, hj⟩ := hpayload ho
  have hlt : decide (i < j) = decide (sortKey v < sortKey o) := by
    refine decide_eq_decide.mpr ?_
    rw [sortKey, sortKey, hi, hj, Sum.Lex.inl_lt_inl_iff, Int32.lt_iff_toInt_lt]
  simp [Value.compareLessThan, Value.compareWith, hv, ho, hi, hj, hlt]

/-- VARCHAR values are compared by their keys. -/
theorem compareLessThan_of_varchar {v o : Value} (hv : v.getTypeId = .varchar)
    (ho : o.getTypeId = .varchar) :
    v.compareLessThan o = some (.boolean (decide (sortKey v < sortKey o))) := by
  have hpayload : ∀ {v : Value}, v.getTypeId = .varchar →
      v.getAsInteger = none ∧ ∃ s, v.getAsString = some s := by
    intro v hv
    cases v with
    | varchar s => exact ⟨rfl, s, rfl⟩
    | null type =>
      cases hv
      exact ⟨rfl, [], rfl⟩
    | boolean => cases hv
    | float => cases hv
    | integer => cases hv
  obtain ⟨hv', s, hs⟩ := hpayload hv
  obtain ⟨ho', t, ht⟩ := hpayload ho
  have hlt : decide (s < t) = decide (sortKey v < sortKey o) := by
    refine decide_eq_decide.mpr ?_
    rw [sortKey, sortKey, hv', ho', hs, ht, Sum.Lex.inr_lt_inr_iff, lt_iff_map_toNat_lt]
  simp [Value.compareLessThan, Value.compareWith, hv, ho, hs, ht, hlt]

/-- An expression that has INTEGER values on the rows, or VARCHAR values. -/
def Sortable (schema : Schema) (rows : List Tuple) (expr : Expr) : Prop :=
  ∃ type, (type = .integer ∨ type = .varchar) ∧
    ∀ r ∈ rows, ∃ v, expr.evaluate r schema = some v ∧ v.getTypeId = type

/-- The key of an expression on a row. -/
def exprKey (schema : Schema) (expr : Expr) (tuple : Tuple) : SortKey :=
  sortKey ((expr.evaluate tuple schema).getD (.null .invalid))

/-- The keys of the ORDER BY items. -/
def sortKeys (schema : Schema) (orderBys : List (Bool × Expr)) : List (Bool × (Tuple → SortKey)) :=
  orderBys.map fun item => (item.1, exprKey schema item.2)

/-- A sortable expression is compared by its keys. -/
theorem Sortable.compareLessThan {schema : Schema} {rows : List Tuple} {expr : Expr}
    (h : Sortable schema rows expr) {a b : Tuple} (ha : a ∈ rows) (hb : b ∈ rows) :
    ∃ valA valB, expr.evaluate a schema = some valA ∧ expr.evaluate b schema = some valB ∧
      valA.compareLessThan valB =
        some (.boolean (decide (exprKey schema expr a < exprKey schema expr b))) ∧
      valB.compareLessThan valA =
        some (.boolean (decide (exprKey schema expr b < exprKey schema expr a))) := by
  obtain ⟨type, htype, hrows⟩ := h
  obtain ⟨valA, hvalA, htypeA⟩ := hrows a ha
  obtain ⟨valB, hvalB, htypeB⟩ := hrows b hb
  have hkeyA : exprKey schema expr a = sortKey valA := by rw [exprKey, hvalA, Option.getD_some]
  have hkeyB : exprKey schema expr b = sortKey valB := by rw [exprKey, hvalB, Option.getD_some]
  rw [hkeyA, hkeyB]
  refine ⟨valA, valB, hvalA, hvalB, ?_⟩
  rcases htype with rfl | rfl
  · exact ⟨compareLessThan_of_integer htypeA htypeB, compareLessThan_of_integer htypeB htypeA⟩
  · exact ⟨compareLessThan_of_varchar htypeA htypeB, compareLessThan_of_varchar htypeB htypeA⟩

/-- **The comparator** is a comparison by keys. -/
theorem sortLess_eq {schema : Schema} {rows : List Tuple} {orderBys : List (Bool × Expr)}
    (h : ∀ item ∈ orderBys, Sortable schema rows item.2) {a b : Tuple} (ha : a ∈ rows)
    (hb : b ∈ rows) :
    sortLess schema orderBys a b = some (lexLess (sortKeys schema orderBys) a b) := by
  induction orderBys with
  | nil => rfl
  | cons item orderBys ih =>
    obtain ⟨valA, valB, hvalA, hvalB, hless, hgreater⟩ :=
      (h item List.mem_cons_self).compareLessThan ha hb
    have hrest := ih fun item' hitem' => h item' (List.mem_cons_of_mem _ hitem')
    show sortLess schema ((item.1, item.2) :: orderBys) a b =
      some (lexLess ((item.1, exprKey schema item.2) :: sortKeys schema orderBys) a b)
    rw [sortLess, hvalA, hvalB, Option.bind_some, Option.bind_some, hless, hgreater, lexLess, hrest]
    -- the three outcomes of the two comparisons
    rcases lt_trichotomy (exprKey schema item.2 a) (exprKey schema item.2 b) with hlt | heq | hgt
    · simp [hlt]
    · simp [heq]
    · simp [hgt, not_lt_of_gt hgt]

namespace SortPlan

/-- The loop of `Init` collects the rows. -/
theorem foldlM_push (rows acc : List Tuple) :
    rows.foldlM (fun tuples tuple => some (tuples ++ [tuple])) acc = some (acc ++ rows) := by
  induction rows generalizing acc with
  | nil => rw [List.append_nil]; rfl
  | cons tuple rows ih =>
    rw [List.foldlM_cons]
    refine (ih (acc ++ [tuple])).trans ?_
    rw [List.append_assoc]
    rfl

/-- **The comparator is a strict weak ordering**, and the executor yields the rows of its
child in an order in which no row is after a later one. -/
theorem yields_sorted {σ : Type} (plan : SortPlan) (std : StdSort Tuple) {child : Executor σ}
    {rows : List Tuple} (hchild : child.Yields rows) {fuel : Nat} (hfuel : rows.length < fuel)
    (hitems : ∀ item ∈ plan.orderBys, Sortable child.outputSchema rows item.2) :
    (∃ less : Tuple → Tuple → Bool,
      (∀ a ∈ rows, ∀ b ∈ rows,
        sortLess child.outputSchema plan.orderBys a b = some (less a b)) ∧
      IsStrictWeakOrder Tuple fun a b => less a b = true) ∧
    ∃ out, (plan.executor std child fuel).Yields out ∧ out.Perm rows ∧
      out.Pairwise (NotAfter (sortKeys child.outputSchema plan.orderBys)) := by
  have hless : ∀ a ∈ rows, ∀ b ∈ rows, sortLess child.outputSchema plan.orderBys a b =
      some (lexLess (sortKeys child.outputSchema plan.orderBys) a b) :=
    fun a ha b hb => sortLess_eq hitems ha hb
  have hweak := isStrictWeakOrder_lexLess (sortKeys child.outputSchema plan.orderBys)
  refine ⟨⟨_, hless, hweak⟩, ?_⟩
  obtain ⟨out, hout, hperm, hsorted⟩ := std.sorts hweak hless
  refine ⟨out, Materialized.yields hchild hfuel _ ?_, hperm, ?_⟩
  · rw [foldlM_push, List.nil_append]
    exact hout
  · exact hsorted.imp fun {a b} h => (lexLess_eq_false_iff _ a b).mp h

/-- `ORDER BY score DESC, name`. -/
def byScore : SortPlan where
  outputSchema := ⟨[⟨"score", .integer, 0, 0⟩, ⟨"name", .varchar, 0, 0⟩]⟩
  orderBys := [(false, .columnValue 0 0 .integer), (true, .columnValue 0 1 .varchar)]

/-- The rows (1, a) and (2, b). -/
theorem yields_sorted_byScore :
    (∃ less : Tuple → Tuple → Bool,
      (∀ a ∈ [({ values := [.integer 1, .varchar [97]] } : Tuple),
          { values := [.integer 2, .varchar [98]] }],
        ∀ b ∈ [({ values := [.integer 1, .varchar [97]] } : Tuple),
          { values := [.integer 2, .varchar [98]] }],
        sortLess byScore.outputSchema byScore.orderBys a b = some (less a b)) ∧
      IsStrictWeakOrder Tuple fun a b => less a b = true) ∧
    ∃ out, (byScore.executor (.merge Tuple) (listExecutor byScore.outputSchema
        [{ values := [.integer 1, .varchar [97]] }, { values := [.integer 2, .varchar [98]] }])
        3).Yields out ∧
      out.Perm [{ values := [.integer 1, .varchar [97]] },
        { values := [.integer 2, .varchar [98]] }] ∧
      out.Pairwise (NotAfter (sortKeys byScore.outputSchema byScore.orderBys)) := by
  refine yields_sorted byScore (.merge Tuple) (listExecutor_yields byScore.outputSchema _)
    (Nat.lt_succ_self 2) fun item hitem => ?_
  rcases List.mem_pair.mp hitem with rfl | rfl
  · refine ⟨.integer, .inl rfl, fun r hr => ?_⟩
    rcases List.mem_pair.mp hr with rfl | rfl
    · exact ⟨_, rfl, rfl⟩
    · exact ⟨_, rfl, rfl⟩
  · refine ⟨.varchar, .inr rfl, fun r hr => ?_⟩
    rcases List.mem_pair.mp hr with rfl | rfl
    · exact ⟨_, rfl, rfl⟩
    · exact ⟨_, rfl, rfl⟩

end SortPlan

end OneBase
