import OneBase.Execution.PlanTree

/-!
# What a plan asks for

The rows that a plan stands for, apart from the executors: a scan or a join asks for a
collection of rows in no order, a sort for an order, and a limit for the first rows of what
its child gives. So a plan has many answers, and which one is returned depends on the order
in which the executors find the rows.

- `Answers`: the answers of a plan.
- `Sound`: no expression of the plan throws, and its schemas are those that the binder
  makes.
- `Answers.row`: the rows of scans and joins have the types of their columns.
- `Answers.perm_of_unordered`: without a limit and an aggregation the answers differ in the
  order of the rows only.
-/

namespace OneBase

open Cpp PageStore

section Meaning

variable (db : Database) (rows : Nat → List Tuple)

/-- **The answers of a plan**, over the rows of the tables. Only the optimizer makes an
index scan or a hash join, and these have no meaning of their own. -/
def Answers : PlanTree → List Tuple → Prop
  | .seqScan _ tableOid predicate, out =>
    ∃ table selected, db.catalog.getTable tableOid = some table ∧
      filterOption (fun tuple =>
        ScanExecutor.selects (predicate.map Expr.evaluate) tuple table.schema) (rows tableOid) =
          some selected ∧
      out.Perm selected
  | .indexScan _ _ _ _ _, _ => False
  | .nestedLoopJoin _ left right predicate, out =>
    ∃ (L R : List Tuple) (sel : Tuple → Tuple → Bool) (row : Tuple × Tuple → Tuple),
      Answers left L ∧ Answers right R ∧
      (∀ l ∈ L, ∀ r ∈ R,
        joinSelects predicate left.outputSchema right.outputSchema l r = some (sel l r) ∧
        joinRow left.outputSchema right.outputSchema l r = some (row (l, r))) ∧
      out.Perm ((leftMajor sel L R).map row)
  | .hashJoin _ _ _ _ _, _ => False
  | .aggregation plan child, out =>
    ∃ C order groups, Answers child C ∧
      C.foldlM (plan.aggregateRow child.outputSchema) ∅ = some groups ∧
      (plan.outputValues order (!C.isEmpty) groups).mapM Tuple.ofValues = some out
  | .sort plan child, out =>
    ∃ C, Answers child C ∧ out.Perm C ∧
      out.Pairwise (NotAfter (sortKeys child.outputSchema plan.orderBys))
  | .limit _ child limit, out => ∃ C, Answers child C ∧ out = C.take limit
  | .projection _ child expressions, out =>
    ∃ C, Answers child C ∧ C.mapM (projectRow expressions child.outputSchema) = some out

/-- A plan of a FROM clause: scans and joins. -/
def PlanTree.IsFrom : PlanTree → Prop
  | .seqScan _ _ _ => True
  | .nestedLoopJoin _ left right _ => left.IsFrom ∧ right.IsFrom
  | _ => False

/-- The columns that a predicate equates are columns of the two schemas. -/
def ColumnsExist (predicate : Option Expr) (left right : Schema) : Prop :=
  ∀ expr ∈ predicate, ∀ leftCol rightCol, EquatesColumns expr leftCol rightCol →
    leftCol < left.given.length ∧ rightCol < right.given.length

/-- A column is not equated with NULL; there is no way to write one in a query. -/
def NoNullKey (predicate : Option Expr) : Prop :=
  ∀ expr ∈ predicate, ∀ col v, matchEquality expr = some (col, .constant v) → v.isNull = false

/-- **No expression throws** on the rows that it is evaluated on, and the schemas are those
of the binder: a scan has the columns of its table, a join those of both sides. -/
def Sound : PlanTree → Prop
  | .seqScan outputSchema tableOid predicate =>
    ∃ table, db.catalog.getTable tableOid = some table ∧
      outputSchema.given = table.schema.given ∧ NoNullKey predicate ∧
      ∀ tuple ∈ rows tableOid, ∃ b,
        ScanExecutor.selects (predicate.map Expr.evaluate) tuple table.schema = some b
  | .indexScan _ _ _ _ _ => False
  | .nestedLoopJoin outputSchema left right predicate =>
    Sound left ∧ Sound right ∧ left.IsFrom ∧ right.IsFrom ∧
      outputSchema.given = left.outputSchema.given ++ right.outputSchema.given ∧
      ColumnsExist predicate left.outputSchema right.outputSchema ∧
      ∀ L R, Answers db rows left L → Answers db rows right R → ∀ l ∈ L, ∀ r ∈ R, ∃ b,
        joinSelects predicate left.outputSchema right.outputSchema l r = some b
  | .hashJoin _ _ _ _ _ => False
  | .aggregation plan child =>
    Sound child ∧ ∀ C, Answers db rows child C →
      ∃ groups, C.foldlM (plan.aggregateRow child.outputSchema) ∅ = some groups ∧
        ∀ order, ∃ out, (plan.outputValues order (!C.isEmpty) groups).mapM Tuple.ofValues = some out
  | .sort plan child =>
    Sound child ∧ ∀ C, Answers db rows child C → ∀ item ∈ plan.orderBys,
      Sortable child.outputSchema C item.2
  | .limit _ child _ => Sound child
  | .projection _ child expressions =>
    Sound child ∧ ∀ C, Answers db rows child C → ∀ tuple ∈ C,
      ∃ tuple', projectRow expressions child.outputSchema tuple = some tuple'

end Meaning

/-! ## The types of the rows -/

/-- A value that is read in a column has its type. -/
theorem deserializeFrom_type {storage : List UInt8} {type : TypeId} {v : Value}
    (h : Value.deserializeFrom storage type = some v) : v.isNull = false ∧ v.getTypeId = type := by
  cases type with
  | invalid => cases h
  | boolean =>
    obtain ⟨b, -, rfl⟩ := Option.map_eq_some_iff.mp h
    exact ⟨rfl, rfl⟩
  | integer =>
    simp only [Value.deserializeFrom] at h
    split at h
    · cases h
    · obtain rfl := Option.some.inj h
      exact ⟨rfl, rfl⟩
  | float =>
    simp only [Value.deserializeFrom] at h
    split at h
    · cases h
    · obtain rfl := Option.some.inj h
      exact ⟨rfl, rfl⟩
  | varchar =>
    simp only [Value.deserializeFrom] at h
    split at h
    · cases h
    · obtain rfl := Option.some.inj h
      exact ⟨rfl, rfl⟩

/-- A row that is read from its bytes is a row of the schema. -/
theorem row_of_rebuild {schema : Schema} {rid : RID} {bytes : List UInt8} {tuple : Tuple}
    (h : ScanExecutor.rebuild schema rid bytes = some tuple) : Row schema.given tuple.values := by
  rw [ScanExecutor.rebuild] at h
  split at h
  · cases h
  · rename_i values hvalues
    obtain ⟨data, -, rfl⟩ := Option.map_eq_some_iff.mp h
    obtain ⟨hlen, hget⟩ := Tuple.getElem_getValuesFrom hvalues
    rw [Schema.getColumnCount_eq] at hlen hget
    refine List.forall₂_iff_get.mpr ⟨hlen.symm, fun i hi hi' => ?_⟩
    have hread := hget i hi
    rw [Nat.zero_add, List.getElem?_eq_getElem hi', Tuple.getValue] at hread
    -- the stored tuple has no values, so the column is read from the bytes
    rw [Schema.getColumn_eq, List.getElem?_eq_getElem hi] at hread
    exact deserializeFrom_type hread.symm

/-- The rows of a table are rows of its schema. -/
theorem row_of_isTable {db : Database} {table : TableInfo} {rows : List Tuple}
    (h : IsTable db table rows) : ∀ tuple ∈ rows, Row table.schema.given tuple.values := by
  obtain ⟨chain, -, hselected⟩ := h
  generalize chain.liveRids = rids at hselected
  induction rids generalizing rows with
  | nil =>
    obtain rfl := Option.some.inj hselected
    exact fun tuple htuple => absurd htuple List.not_mem_nil
  | cons rid rids ih =>
    rw [selected] at hselected
    split at hselected
    · cases hselected
    · rename_i tuple hread
      obtain ⟨rest, hrest, rfl⟩ := Option.map_eq_some_iff.mp hselected
      exact List.forall_mem_cons.mpr ⟨row_of_rebuild hread, ih hrest⟩

section Rows

variable {schema : Schema} {tuple : Tuple}

/-- A row has the values of all columns. -/
theorem getValues_of_row (h : Row schema.given tuple.values) :
    tuple.getValues schema = some tuple.values := by
  have hlen := h.length_eq.symm
  refine Tuple.getValuesFrom_eq (hlen.trans schema.getColumnCount_eq.symm) fun j hj => ?_
  rw [Nat.zero_add, getValue_of_length hlen, List.getElem?_eq_getElem hj]

/-- A column of a row. -/
theorem getValue_of_row (h : Row schema.given tuple.values) {i : Nat}
    (hi : i < schema.given.length) :
    ∃ v, tuple.getValue schema i = some v ∧ v.isNull = false ∧
      v.getTypeId = schema.given[i].type := by
  obtain ⟨v, hv, hnull, htype⟩ := h.getElem (List.getElem?_eq_getElem hi)
  exact ⟨v, by rw [getValue_of_length h.length_eq.symm, hv], hnull, htype⟩

/-- Two rows make a row of both schemas. -/
theorem joinRow_of_rows {left right : Schema} {l r : Tuple} (hl : Row left.given l.values)
    (hr : Row right.given r.values) :
    ∃ tuple, joinRow left right l r = some tuple ∧
      Row (left.given ++ right.given) tuple.values := by
  have hrow : Row (left.given ++ right.given) (l.values ++ r.values) := List.rel_append hl hr
  obtain ⟨data, hdata, -⟩ := hrow.exists_serializeAll
  refine ⟨{ data, values := l.values ++ r.values }, ?_, hrow⟩
  rw [joinRow, getValues_of_row hl, getValues_of_row hr]
  simp only [Tuple.ofValues, hdata, Option.map_some]

end Rows

section

variable {db : Database} {rows : Nat → List Tuple}

/-- **The rows of scans and joins** are rows of the schema of the plan. -/
theorem Answers.row (hrows : HasRows db rows) :
    ∀ {p : PlanTree}, p.IsFrom → Sound db rows p → ∀ {out}, Answers db rows p out →
      ∀ tuple ∈ out, Row p.outputSchema.given tuple.values := by
  intro p
  induction p with
  | seqScan outputSchema tableOid predicate =>
    rintro - ⟨table, htable, hschema, -, -⟩ out ⟨table', selected, htable', hselected, hperm⟩
      tuple htuple
    rw [htable] at htable'
    obtain rfl := Option.some.inj htable'
    obtain ⟨-, rfl⟩ := filterOption_eq_some_iff.mp hselected
    show Row outputSchema.given tuple.values
    rw [hschema]
    exact row_of_isTable (hrows _ _ htable) tuple
      (List.mem_filter.mp (hperm.mem_iff.mp htuple)).1
  | nestedLoopJoin outputSchema left right predicate ihl ihr =>
    rintro - ⟨hleft, hright, hfromL, hfromR, hschema, -, -⟩ out
      ⟨L, R, sel, row, hL, hR, hpairs, hperm⟩ tuple htuple
    obtain ⟨p, hp, rfl⟩ := List.mem_map.mp (hperm.mem_iff.mp htuple)
    obtain ⟨hl, hr⟩ := mem_leftMajor hp
    obtain ⟨tuple, htuple, hrow⟩ := joinRow_of_rows (ihl hfromL hleft hL p.1 hl)
      (ihr hfromR hright hR p.2 hr)
    obtain rfl := Option.some.inj ((hpairs p.1 hl p.2 hr).2.symm.trans htuple)
    show Row outputSchema.given _
    rw [hschema]
    exact hrow
  | indexScan => exact fun h => h.elim
  | hashJoin => exact fun h => h.elim
  | aggregation => exact fun h => h.elim
  | sort => exact fun h => h.elim
  | limit => exact fun h => h.elim
  | projection => exact fun h => h.elim

/-- The columns of scans and joins are those of tables. -/
theorem Sound.fixed (hfixed : ∀ {oid table}, db.catalog.getTable oid = some table →
    FixedColumns table.schema.given) :
    ∀ {p : PlanTree}, p.IsFrom → Sound db rows p → FixedColumns p.outputSchema.given := by
  intro p
  induction p with
  | seqScan outputSchema tableOid predicate =>
    rintro - ⟨table, htable, hschema, -, -⟩
    show FixedColumns outputSchema.given
    rw [hschema]
    exact hfixed htable
  | nestedLoopJoin outputSchema left right predicate ihl ihr =>
    rintro - ⟨hleft, hright, hfromL, hfromR, hschema, -, -⟩ c hc
    change c ∈ outputSchema.given at hc
    rw [hschema] at hc
    rcases List.mem_append.mp hc with hc | hc
    · exact ihl hfromL hleft c hc
    · exact ihr hfromR hright c hc
  | indexScan => exact fun h => h.elim
  | hashJoin => exact fun h => h.elim
  | aggregation => exact fun h => h.elim
  | sort => exact fun h => h.elim
  | limit => exact fun h => h.elim
  | projection => exact fun h => h.elim

end

/-! ## Plans without an order to depend on -/

/-- The same pairs are selected. -/
theorem leftMajor_congr {sel sel' : Tuple → Tuple → Bool} {L R : List Tuple}
    (h : ∀ l ∈ L, ∀ r ∈ R, sel l r = sel' l r) : leftMajor sel L R = leftMajor sel' L R := by
  refine List.flatMap_congr fun l hl => ?_
  exact congrArg _ (List.filter_congr fun r hr => h l hl r hr)

end OneBase
