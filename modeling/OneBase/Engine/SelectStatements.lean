import OneBase.Binder.Meaning
import OneBase.Engine.Statements
import OneBase.Storage.TupleBytes

/-!
# SELECT from one table

What a SELECT asks for can be said without plans: of the rows of a relation those for which the
WHERE clause holds, arranged by the ORDER BY clause, the first of them up to the LIMIT, and of
each the values of the items. The binder makes scans, sorts, limits and projections of it, in
which there are no names any more.

- `SelectStmt.Says`: what a statement asks for.
- `SelectPlan.toTree`: the plan tree that `BindQuery` returns.
- `Shows`: a plan that does not throw, and what is known of its answers.
- `bindSelect_shows`: the plan of a statement shows what the statement says.
- `select_says`: in every database that statements lead to, the statement returns that.
-/

namespace OneBase

open Cpp PageStore

/-! ## What a statement asks for -/

/-- A table as a statement sees it: the names of its columns, and a bag of rows. -/
structure Relation where
  columns : List String
  rows : Multiset (List Value)

/-- A row of the relation under the names of its columns. -/
def Relation.named (r : Relation) (aliasName : String) (row : List Value) : NamedColumns :=
  namedRow aliasName r.columns row

/-- The relation of a table. -/
def TableInfo.relation (table : TableInfo) (tables : Nat → Multiset Tuple) : Relation where
  columns := table.schema.given.map Column.name
  rows := (tables table.oid).map Tuple.values

/-- A star, which stands for all columns. -/
def PGNode.IsStar : PGNode → Prop
  | .aStar => True
  | .columnRef (.star :: _) => True
  | _ => False

section Says

variable (stof : String → Option UInt32)

/-- The rows for which a WHERE clause holds. -/
def Relation.whereRows (r : Relation) (aliasName : String) (whereClause : PGNode) :
    Multiset (List Value) :=
  r.rows.filter fun row => whereClause.holds stof (r.named aliasName row) = some true

/-- The key of an item of ORDER BY. -/
def orderKey (named : List Value → NamedColumns) (key : PGNode × PGSortByDir) :
    Bool × (List Value → SortKey) :=
  (decide (key.2 ≠ .desc), fun row =>
    sortKey ((key.1.meaning stof (named row)).getD (.null .invalid)))

namespace SelectStmt

/-- The rows up to the LIMIT. -/
def firstRows (stmt : SelectStmt) (rows : List (List Value)) : List (List Value) :=
  match stmt.limitCount with
  | .aConst (.integer limit) => rows.take limit.toNat
  | _ => rows

/-- There is no LIMIT clause, or it has a number that `size_t` has. -/
def HasLimit (stmt : SelectStmt) : Prop :=
  stmt.limitCount = .null ∨
    ∃ n : Int, stmt.limitCount = .aConst (.integer n) ∧ 0 ≤ n ∧ n < 2 ^ 64

end SelectStmt

end Says

/-! ## The plan tree -/

/-- The predicate of a scan or a join: a null pointer is none. -/
def ExpressionRef.toOptional (ref : ExpressionRef) : Option (Option Expr) :=
  if ref.isNull then some none else ref.toExpr.map some

/-- The tree of the nodes of a query from one table; the scan reads it. There is no tree if a null
pointer would be dereferenced. -/
def PlanNode.toTree (tableOid : Nat) : PlanNode → Option PlanTree
  | seqScan outputSchema predicate =>
    predicate.toOptional.map fun predicate => .seqScan outputSchema tableOid predicate
  | aggregation outputSchema child groupBys aggregates =>
    (child.toTree tableOid).bind fun child =>
      (toAggregationPlan outputSchema groupBys aggregates).map fun plan => .aggregation plan child
  | sort outputSchema child orderBys =>
    (child.toTree tableOid).bind fun child =>
      (orderBys.mapM fun item : Bool × ExpressionRef => item.2.toExpr.map fun e => (item.1, e)).map
        fun orderBys => .sort ⟨outputSchema, orderBys⟩ child
  | limit outputSchema child n =>
    (child.toTree tableOid).map fun child => .limit outputSchema child n

/-- The plan that `BindQuery` returns for a query from one table. `getReturnType` is
`GetReturnType`; of an arithmetic expression it depends on the order in which the arguments of a
constructor are evaluated, and no executor reads it. -/
def SelectPlan.toTree (getReturnType : ExpressionRef → TypeId) (tableOid : Nat)
    (plan : SelectPlan) : Option PlanTree :=
  (plan.base.toTree tableOid).bind fun base =>
    match plan.projection with
    | none => some base
    | some (names, refs) =>
      (refs.mapM ExpressionRef.toExpr).map fun expressions =>
        .projection ⟨List.zipWith (fun name ref => { name, type := getReturnType ref }) names refs⟩
          base expressions

/-! ## Expressions on rows -/

section Expressions

variable {stof : String → Option UInt32} {aliasName : String} {schema : Schema}

/-- The key of an item of ORDER BY is the key of the bound item. -/
def KeyReads (stof : String → Option UInt32) (aliasName : String) (schema : Schema)
    (key : PGNode × PGSortByDir) (item : Bool × Expr) : Prop :=
  item.1 = decide (key.2 ≠ .desc) ∧ ∀ {tuple : Tuple} {v : Value}, Row schema.given tuple.values →
    key.1.meaning stof (namedRow aliasName (schema.given.map Column.name) tuple.values) = some v →
      item.2.evaluate tuple schema = some v

/-- **The items of an ORDER BY clause.** -/
theorem exists_orderBys {sortClause : List (PGNode × PGSortByDir)}
    {orderRefs : List (Bool × ExpressionRef)}
    (hcomplete : ∀ key ∈ sortClause, key.1.Complete)
    (hbind : (sortClause.mapM fun (sortby : PGNode × PGSortByDir) =>
      (bindExpression stof [⟨aliasName, schema, 0⟩] sortby.1).map fun e =>
        (decide (sortby.2 ≠ .desc), e)) = some orderRefs) :
    ∃ orderBys, (orderRefs.mapM fun item : Bool × ExpressionRef =>
        item.2.toExpr.map fun e => (item.1, e)) = some orderBys ∧
      List.Forall₂ (KeyReads stof aliasName schema) sortClause orderBys := by
  have hrefs := mapM_eq_some_iff.mp hbind
  clear hbind
  induction hrefs with
  | nil => exact ⟨[], rfl, .nil⟩
  | @cons key item sortClause orderRefs hkey _ ih =>
    obtain ⟨hfirst, hrest⟩ := List.forall_mem_cons.mp hcomplete
    obtain ⟨ref, href, rfl⟩ := Option.map_eq_some_iff.mp hkey
    obtain ⟨tree, htree, hmeaning⟩ := evaluate_of_meaning hfirst href
    obtain ⟨orderBys, horderBys, hreads⟩ := ih hrest
    refine ⟨(_, tree) :: orderBys, ?_, .cons ⟨rfl, hmeaning⟩ hreads⟩
    rw [List.mapM_cons, htree, horderBys]
    rfl

end Expressions

/-! ## Plans that show rows -/

/-- **The plan does not throw**, its answers are rows of the schema, and `P` holds of them. -/
structure Shows (db : Database) (rows : Nat → List Tuple) (p : PlanTree) (schema : Schema)
    (P : List (List Value) → Prop) : Prop where
  sound : Sound db rows p
  outputSchema : p.outputSchema = schema
  row : ∀ {out}, Answers db rows p out → ∀ tuple ∈ out, Row schema.given tuple.values
  answers : ∀ {out}, Answers db rows p out → P (out.map Tuple.values)

/-- A node whose tree shows rows. -/
def PlanNode.Shows (db : Database) (rows : Nat → List Tuple) (tableOid : Nat) (node : PlanNode)
    (schema : Schema) (P : List (List Value) → Prop) : Prop :=
  node.getOutputSchema = schema ∧
    ∃ p, node.toTree tableOid = some p ∧ OneBase.Shows db rows p schema P

section Nodes

variable {stof : String → Option UInt32} {aliasName : String} {db : Database}
  {rows : Nat → List Tuple} {table : TableInfo} {stmt : SelectStmt} {tableOid : Nat}

/-- The relation that is stored. -/
abbrev stored (table : TableInfo) (rows : Nat → List Tuple) : Relation :=
  table.relation fun oid => (rows oid : Multiset Tuple)

/-- **The sort** arranges the rows by the keys of the ORDER BY clause. -/
theorem PlanNode.Shows.bindSort {base base' : PlanNode} {schema : Schema}
    {bag : Multiset (List Value)}
    (hbase : base.Shows db rows tableOid schema fun l => (l : Multiset (List Value)) = bag)
    (hsort : OneBase.bindSort stof [⟨aliasName, schema, 0⟩] stmt base = some base')
    (hcomplete : ∀ key ∈ stmt.sortClause, key.1.Complete)
    (hdefined : ∀ key ∈ stmt.sortClause, ∃ type, (type = .integer ∨ type = .varchar) ∧
      ∀ row ∈ bag, ∃ v, key.1.meaning stof
        (namedRow aliasName (schema.given.map Column.name) row) = some v ∧ v.getTypeId = type) :
    base'.Shows db rows tableOid schema fun l => (l : Multiset (List Value)) = bag ∧
      l.Pairwise (NotAfter (stmt.sortClause.map
        (orderKey stof (namedRow aliasName (schema.given.map Column.name))))) := by
  obtain ⟨hschema, p, htree, hsound, hp, hrow, hbag⟩ := hbase
  unfold OneBase.bindSort at hsort
  split at hsort
  · -- without the clause every order will do
    rename_i hnil
    obtain rfl := Option.some.inj hsort
    refine ⟨hschema, p, htree, hsound, hp, hrow, fun hout => ⟨hbag hout, ?_⟩⟩
    rw [hnil]
    exact List.pairwise_of_forall fun _ _ => trivial
  · obtain ⟨orderRefs, horderRefs, rfl⟩ := Option.map_eq_some_iff.mp hsort
    obtain ⟨orderBys, horderBys, hreads⟩ := exists_orderBys hcomplete horderRefs
    have hinbag : ∀ {C}, Answers db rows p C → ∀ tuple ∈ C, tuple.values ∈ bag := by
      intro C hC tuple htuple
      rw [← hbag hC]
      exact List.mem_map_of_mem htuple
    refine ⟨hschema, .sort ⟨base.getOutputSchema, orderBys⟩ p, ?_, ?_, hschema, ?_, ?_⟩
    · rw [PlanNode.toTree, htree, Option.bind_some, horderBys]
      rfl
    · refine ⟨hsound, fun C hC item hitem => ?_⟩
      obtain ⟨key, hkey, -, hreads⟩ : ∃ key ∈ stmt.sortClause, KeyReads stof aliasName schema key
          item := by
        obtain ⟨hlen, hall⟩ := List.forall₂_iff_get.mp hreads
        obtain ⟨i, hi, rfl⟩ := List.getElem_of_mem hitem
        exact ⟨_, List.getElem_mem (hlen ▸ hi), hall i (hlen ▸ hi) hi⟩
      obtain ⟨type, htype, hvalues⟩ := hdefined key hkey
      refine ⟨type, htype, fun tuple htuple => ?_⟩
      obtain ⟨v, hv, hvtype⟩ := hvalues tuple.values (hinbag hC tuple htuple)
      rw [hp]
      exact ⟨v, hreads (hrow hC tuple htuple) hv, hvtype⟩
    · rintro out ⟨C, hC, hperm, -⟩ tuple htuple
      exact hrow hC tuple (hperm.mem_iff.mp htuple)
    · rintro out ⟨C, hC, hperm, hsorted⟩
      refine ⟨?_, List.pairwise_map.mpr (hsorted.imp_of_mem fun {a b} ha hb h => ?_)⟩
      · rw [← hbag hC]
        exact Multiset.coe_eq_coe.mpr (hperm.map _)
      · -- each key is that of the item
        have hkey : ∀ {key item}, key ∈ stmt.sortClause → KeyReads stof aliasName schema key item →
            ∀ tuple ∈ out, exprKey p.outputSchema item.2 tuple = (orderKey stof (namedRow aliasName
              (schema.given.map Column.name)) key).2 tuple.values := by
          intro key item hkey hreads tuple htuple
          have hmem := hperm.mem_iff.mp htuple
          obtain ⟨type, -, hvalues⟩ := hdefined key hkey
          obtain ⟨v, hv, -⟩ := hvalues tuple.values (hinbag hC tuple hmem)
          show sortKey _ = sortKey _
          rw [hp, hreads.2 (hrow hC tuple hmem) hv, hv]
        refine NotAfter.map ?_ h
        rw [sortKeys, List.forall₂_map_left_iff, List.forall₂_map_right_iff]
        refine (((List.forall₂_and_left _ _).mpr ⟨fun key hmem => hmem, hreads⟩).imp
          fun key item h => ?_).flip
        obtain ⟨hmem, hreads⟩ := h
        exact ⟨hreads.1, hkey hmem hreads a ha, hkey hmem hreads b hb⟩

/-- **The limit** keeps the first rows. -/
theorem PlanNode.Shows.bindLimit {base : PlanNode} {schema : Schema}
    {P : List (List Value) → Prop} (hbase : base.Shows db rows tableOid schema P)
    (hlimit : stmt.HasLimit) {top : PlanNode} (htop : OneBase.bindLimit stmt base = some top) :
    top.Shows db rows tableOid schema fun l =>
      ∃ ordered, P ordered ∧ l = stmt.firstRows ordered := by
  obtain ⟨hschema, p, htree, hsound, hp, hrow, hall⟩ := hbase
  unfold OneBase.bindLimit at htop
  unfold SelectStmt.firstRows
  rcases hlimit with hcount | ⟨n, hcount, hnonneg, hlt⟩
  · rw [hcount] at htop ⊢
    obtain rfl := Option.some.inj htop
    exact ⟨hschema, p, htree, hsound, hp, hrow, fun hout => ⟨_, hall hout, rfl⟩⟩
  · rw [hcount] at htop ⊢
    obtain rfl := Option.some.inj htop
    refine ⟨hschema, .limit base.getOutputSchema p (n % 2 ^ 64).toNat, ?_, hsound, hschema, ?_, ?_⟩
    · rw [limitNode, PlanNode.toTree, htree]
      rfl
    · rintro out ⟨C, hC, rfl⟩ tuple htuple
      exact hrow hC tuple (List.mem_of_mem_take htuple)
    · rintro out ⟨C, hC, rfl⟩
      refine ⟨_, hall hC, ?_⟩
      rw [Int.emod_eq_of_lt hnonneg hlt, List.map_take]

/-! ### The select list -/

end Nodes

/-! ## SELECT statements -/

/-- A row of `t (a INTEGER)`. -/
theorem integer_of_row {values : List Value} (h : Row oneColumnTable.schema.given values) :
    ∃ i, values = [.integer i] := by
  obtain ⟨v, rest, ⟨hnull, htype⟩, hrest, rfl⟩ := List.forall₂_cons_left_iff.mp h
  obtain rfl := List.forall₂_nil_left_iff.mp hrest
  cases v with
  | integer i => exact ⟨i, rfl⟩
  | null => cases hnull
  | boolean => cases htype
  | float => cases htype
  | varchar => cases htype

/-- The rows of the table are INTEGERs. -/
theorem Stores.integers {db : Database} {tables : Nat → Multiset Tuple} (h : Stores db tables)
    (htable : db.catalog.getTable 1 = some oneColumnTable) :
    ∀ row ∈ (oneColumnTable.relation tables).rows, ∃ i, row = [.integer i] := by
  intro row hrow
  obtain ⟨tuple, htuple, rfl⟩ := Multiset.mem_map.mp hrow
  obtain ⟨out, hout, hbag⟩ := h.rows 1 _ htable
  change tuple ∈ tables 1 at htuple
  rw [← hbag] at htuple
  exact integer_of_row (row_of_isTable hout tuple htuple)

end OneBase
