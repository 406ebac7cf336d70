import OneBase.Binder.Binder
import OneBase.Execution.Joins

/-!
# Columns of a join (`binder/binder.cpp`, `column_value_expression.h`)

A column of the right table is bound to its index in that table. `EvaluateJoin` reads
it there, but `Evaluate` reads the column with that index of the joined row, which
begins with the columns of the left table.

- `agreesOnPairs_of_left`: expressions over the left table have the same value.
- `agreesOnPairs_iff`: all bound expressions do only if no column of the right table can
  be named, or the joined row begins with the right table.
-/

namespace OneBase

/-- The scopes of `left JOIN right`. -/
def joinScopes (leftAlias : String) (left : Schema) (rightAlias : String) (right : Schema) :
    List TableScope := [⟨leftAlias, left, 0⟩, ⟨rightAlias, right, 1⟩]

/-- A row of a schema: its values have the types of the columns. -/
def RowMatches (schema : Schema) (tuple : Tuple) : Prop :=
  ∃ values, tuple.getValues schema = some values ∧
    List.Forall₂ (fun c v => v.getTypeId = c.type) schema.given values

/-- On every pair of rows, the value over the joined row is the value over the pair. -/
def AgreesOnPairs (left right : Schema) (ref : ExpressionRef) : Prop :=
  ∀ leftTuple rightTuple joined, RowMatches left leftTuple → RowMatches right rightTuple →
    joinRow left right leftTuple rightTuple = some joined →
    ref.evaluate joined ⟨left.given ++ right.given⟩ =
      ref.evaluateJoin leftTuple left rightTuple right

/-! ## Resolving names -/

/-- What a resolved column is: a column with the name, of a scope with the qualifier. -/
theorem resolveColumn_spec {colName tableQualifier : String} {tupleIdx colIdx : Nat}
    {type : TypeId} :
    ∀ {scopes : List TableScope},
      resolveColumn colName tableQualifier scopes = some (tupleIdx, colIdx, type) →
      ∃ scope ∈ scopes, scope.tupleIdx = tupleIdx ∧
        (tableQualifier = "" ∨ tableQualifier = scope.aliasName) ∧
        ∃ c, scope.schema.given[colIdx]? = some c ∧ c.name = colName := by
  intro scopes
  induction scopes with
  | nil => exact fun h => by cases h
  | cons scope scopes ih =>
    intro h
    rw [resolveColumn] at h
    split at h
    · obtain ⟨scope', hmem, hspec⟩ := ih h
      exact ⟨scope', List.mem_cons_of_mem _ hmem, hspec⟩
    · rename_i hqualifier
      split at h
      · rename_i i hfind
        obtain ⟨hlt, hname, -⟩ := List.findIdx?_eq_some_iff_getElem.mp hfind
        obtain ⟨col, -, hcol⟩ := Option.map_eq_some_iff.mp h
        cases hcol
        refine ⟨scope, List.mem_cons_self, rfl, ?_, _, List.getElem?_eq_getElem hlt, ?_⟩
        · by_contra hne
          obtain ⟨hempty, hother⟩ := not_or.mp hne
          exact hqualifier ⟨hempty, hother⟩
        · exact beq_iff_eq.mp hname
      · obtain ⟨scope', hmem, hspec⟩ := ih h
        exact ⟨scope', List.mem_cons_of_mem _ hmem, hspec⟩

/-- A column of the first scope is found there. -/
theorem resolveColumn_first {colName tableQualifier : String} {scope : TableScope}
    {scopes : List TableScope} (hqualifier : tableQualifier = "" ∨ tableQualifier = scope.aliasName)
    {c : Column} (hc : c ∈ scope.schema.given) (hname : c.name = colName) :
    ∃ colIdx type, resolveColumn colName tableQualifier (scope :: scopes) =
      some (scope.tupleIdx, colIdx, type) := by
  have hskip : ¬ (tableQualifier ≠ "" ∧ tableQualifier ≠ scope.aliasName) := by
    rintro ⟨hempty, hother⟩
    exact hqualifier.elim hempty hother
  obtain ⟨i, hfind⟩ : ∃ i,
      (scope.schema.given.findIdx? fun col => col.name == colName) = some i := by
    refine Option.isSome_iff_exists.mp ?_
    rw [List.findIdx?_isSome, List.any_eq_true]
    exact ⟨c, hc, beq_iff_eq.mpr hname⟩
  obtain ⟨hlt, -, -⟩ := List.findIdx?_eq_some_iff_getElem.mp hfind
  have hcolumn := scope.schema.getColumn_eq i
  rw [List.getElem?_eq_getElem hlt, Option.map_some] at hcolumn
  rw [resolveColumn, if_neg hskip, hfind]
  simp only [hcolumn]
  exact ⟨i, _, rfl⟩

/-- A scope with another alias, or without the name, is passed over. -/
theorem resolveColumn_skip {colName tableQualifier : String} {scope : TableScope}
    {scopes : List TableScope}
    (h : (tableQualifier ≠ "" ∧ tableQualifier ≠ scope.aliasName) ∨
      ∀ c ∈ scope.schema.given, c.name ≠ colName) :
    resolveColumn colName tableQualifier (scope :: scopes) =
      resolveColumn colName tableQualifier scopes := by
  rw [resolveColumn]
  split
  · rfl
  · rename_i hqualifier
    have hnone : (scope.schema.given.findIdx? fun col => col.name == colName) = none :=
      List.findIdx?_eq_none_iff.mpr fun c hc =>
        beq_eq_false_iff_ne.mpr (h.resolve_left hqualifier c hc)
    rw [hnone]

/-! ## Reading the joined row -/

/-- The columns of a row are its values. -/
theorem getValue_of_getValues {tuple : Tuple} {schema : Schema} {values : List Value}
    (h : tuple.getValues schema = some values) {i : Nat} (hi : i < schema.given.length) :
    tuple.getValue schema i = values[i]? := by
  rw [← Schema.getColumnCount_eq] at hi
  rw [(Tuple.getElem_getValuesFrom h).2 i hi, Nat.zero_add]

/-- The columns of the joined row are the values of both rows. -/
theorem getValue_joinRow {left right : Schema} {leftTuple rightTuple joined : Tuple}
    {leftValues rightValues : List Value} (hleft : leftTuple.getValues left = some leftValues)
    (hright : rightTuple.getValues right = some rightValues)
    (hjoin : joinRow left right leftTuple rightTuple = some joined) (schema : Schema) {i : Nat}
    (hi : i < (leftValues ++ rightValues).length) :
    joined.getValue schema i = (leftValues ++ rightValues)[i]? := by
  rw [joinRow, hleft, hright] at hjoin
  rw [Tuple.getValue_ofValues hjoin schema hi, List.getElem?_eq_getElem hi]

/-- A column of the left table, which is there. -/
def IsLeft (left : Schema) (tupleIdx colIdx : Nat) : Prop :=
  tupleIdx = 0 ∧ colIdx < left.given.length

/-- **Expressions over the left table** agree on all pairs. -/
theorem agreesOnPairs_of_left {left right : Schema} {ref : ExpressionRef}
    (h : ref.ForallColumns (IsLeft left)) : AgreesOnPairs left right ref := by
  intro leftTuple rightTuple joined ⟨leftValues, hleft, hmatches⟩ ⟨rightValues, hright, _⟩ hjoin
  refine ExpressionRef.evaluateWith_congr (h.imp fun tupleIdx colIdx hcol => ?_)
  obtain ⟨rfl, hlt⟩ := hcol
  have hlt' : colIdx < leftValues.length := hmatches.length_eq ▸ hlt
  have hlen : colIdx < (leftValues ++ rightValues).length := by
    rw [List.length_append]
    omega
  show joined.getValue _ colIdx = if 0 = 0 then leftTuple.getValue left colIdx else _
  rw [if_pos rfl, getValue_joinRow hleft hright hjoin _ hlen, getValue_of_getValues hleft hlt,
    List.getElem?_append_left hlt']

/-- A column of one of the two tables. -/
def IsColumn (left right : Schema) (tupleIdx colIdx : Nat) : Prop :=
  IsLeft left tupleIdx colIdx ∨ tupleIdx = 1 ∧ colIdx < right.given.length

/-- If the left table has no columns, the joined row is the right one. -/
theorem agreesOnPairs_of_nil {left right : Schema} (hnil : left.given = []) {ref : ExpressionRef}
    (h : ref.ForallColumns (IsColumn left right)) : AgreesOnPairs left right ref := by
  intro leftTuple rightTuple joined ⟨leftValues, hleft, hmatches⟩
    ⟨rightValues, hright, hmatches'⟩ hjoin
  have hempty : leftValues = [] := by
    rw [hnil] at hmatches
    cases hmatches
    rfl
  subst hempty
  refine ExpressionRef.evaluateWith_congr (h.imp fun tupleIdx colIdx hcol => ?_)
  rcases hcol with ⟨-, hlt⟩ | ⟨rfl, hlt⟩
  · rw [hnil] at hlt
    exact absurd hlt (Nat.not_lt_zero _)
  · have hlen : colIdx < ([] ++ rightValues).length := by
      rw [List.nil_append, ← hmatches'.length_eq]
      exact hlt
    show joined.getValue _ colIdx = if 1 = 0 then _ else rightTuple.getValue right colIdx
    rw [if_neg Nat.one_ne_zero, getValue_joinRow hleft hright hjoin _ hlen,
      getValue_of_getValues hright hlt, List.nil_append]

/-! ## Rows that tell columns apart -/

/-- Two values for each type. -/
def sampleValue (flag : Bool) : TypeId → Value
  | .boolean => .boolean flag
  | .integer => .integer (if flag then 1 else 0)
  | .float => .float (if flag then 1 else 0)
  | .varchar => .varchar (if flag then [48] else [])
  | .invalid => .null .invalid

theorem getTypeId_sampleValue (flag : Bool) (type : TypeId) :
    (sampleValue flag type).getTypeId = type := by
  cases type <;> rfl

theorem isNull_sampleValue (flag : Bool) {type : TypeId} (h : type ≠ .invalid) :
    (sampleValue flag type).isNull = false := by
  cases type with
  | invalid => exact absurd rfl h
  | _ => rfl

theorem sampleValue_ne {type type' : TypeId} (h : type ≠ .invalid) :
    sampleValue false type' ≠ sampleValue true type := by
  cases type with
  | invalid => exact absurd rfl h
  | boolean => cases type' <;> simp [sampleValue]
  | integer => cases type' <;> simp [sampleValue]
  | float => cases type' <;> simp [sampleValue]
  | varchar => cases type' <;> simp [sampleValue]

/-- The values of a row that is true in one column. -/
def sampleValues (columns : List Column) (flagged : Nat) : List Value :=
  columns.mapIdx fun i c => sampleValue (i == flagged) c.type

@[simp] theorem length_sampleValues (columns : List Column) (flagged : Nat) :
    (sampleValues columns flagged).length = columns.length := by
  simp [sampleValues]

theorem getElem?_sampleValues (columns : List Column) (flagged i : Nat) :
    (sampleValues columns flagged)[i]? =
      columns[i]?.map fun c => sampleValue (i == flagged) c.type := by
  simp [sampleValues]

theorem row_sampleValues {columns : List Column} (h : ∀ c ∈ columns, c.type ≠ .invalid)
    (flagged : Nat) : Row columns (sampleValues columns flagged) := by
  refine List.forall₂_iff_get.mpr ⟨by simp, fun i hi hi' => ?_⟩
  have hget : (sampleValues columns flagged).get ⟨i, hi'⟩ =
      sampleValue (i == flagged) (columns.get ⟨i, hi⟩).type := by
    simp [sampleValues]
  rw [hget]
  exact ⟨isNull_sampleValue _ (h _ (List.get_mem _ _)), getTypeId_sampleValue _ _⟩

/-- A tuple with given values, as many as there are columns. -/
theorem getValues_of_length {schema : Schema} {values : List Value}
    (hlen : values.length = schema.given.length) :
    ({ values } : Tuple).getValues schema = some values := by
  refine Tuple.getValuesFrom_eq (hlen.trans (Schema.getColumnCount_eq schema).symm) fun j hj => ?_
  simp [Tuple.getValue, hj]

/-- **A column of the right table** is read from the wrong place of a joined row that
begins with a column of the left one. -/
theorem not_agreesOnPairs_right {left right : Schema} (hne : left.given ≠ [])
    (hleft : ∀ c ∈ left.given, c.type ≠ .invalid) (hright : ∀ c ∈ right.given, c.type ≠ .invalid)
    {colIdx : Nat} (hlt : colIdx < right.given.length) (retType : TypeId) :
    ¬ AgreesOnPairs left right (.columnValue 1 colIdx retType) := by
  intro hagrees
  -- only the right column is flagged
  have hrow := row_sampleValues hleft left.given.length
  have hrow' := row_sampleValues hright colIdx
  have hmatches : ∀ {columns : List Column} {values : List Value}, Row columns values →
      List.Forall₂ (fun c v => v.getTypeId = c.type) columns values :=
    fun h => h.imp fun _ _ hv => hv.2
  have hvalues : ({ values := sampleValues left.given left.given.length } : Tuple).getValues left =
      some (sampleValues left.given left.given.length) := getValues_of_length (by simp)
  have hvalues' : ({ values := sampleValues right.given colIdx } : Tuple).getValues right =
      some (sampleValues right.given colIdx) := getValues_of_length (by simp)
  obtain ⟨data, hdata, -⟩ := hrow.exists_serializeAll
  obtain ⟨data', hdata', -⟩ := hrow'.exists_serializeAll
  have hjoin : joinRow left right { values := sampleValues left.given left.given.length }
      { values := sampleValues right.given colIdx } = some
        { data := data ++ data'
          values := sampleValues left.given left.given.length ++
            sampleValues right.given colIdx } := by
    rw [joinRow, hvalues, hvalues']
    simp only [Tuple.ofValues, Tuple.serializeAll_append hdata hdata', Option.map_some]
  have hvalue := hagrees _ _ _ ⟨_, hvalues, hmatches hrow⟩ ⟨_, hvalues', hmatches hrow'⟩ hjoin
  change Tuple.getValue _ _ colIdx = Tuple.getValue _ right colIdx at hvalue
  have hlen : colIdx < (sampleValues left.given left.given.length ++
      sampleValues right.given colIdx).length := by
    simp only [List.length_append, length_sampleValues]
    omega
  rw [getValue_joinRow hvalues hvalues' hjoin _ hlen, getValue_of_getValues hvalues' hlt,
    getElem?_sampleValues right.given, List.getElem?_eq_getElem hlt, beq_self_eq_true] at hvalue
  have hpos : 0 < left.given.length := List.length_pos_iff.mpr hne
  have htype := hright _ (List.getElem_mem hlt)
  by_cases hin : colIdx < left.given.length
  · have hother : (colIdx == left.given.length) = false :=
      beq_eq_false_iff_ne.mpr (Nat.ne_of_lt hin)
    rw [List.getElem?_append_left (by simpa using hin), getElem?_sampleValues,
      List.getElem?_eq_getElem hin, hother] at hvalue
    exact sampleValue_ne htype (Option.some.inj hvalue)
  · have hlt' : colIdx - left.given.length < right.given.length := by omega
    have hother : (colIdx - left.given.length == colIdx) = false :=
      beq_eq_false_iff_ne.mpr (by omega)
    rw [List.getElem?_append_right (by simpa using hin), length_sampleValues, getElem?_sampleValues,
      List.getElem?_eq_getElem hlt', hother] at hvalue
    exact sampleValue_ne htype (Option.some.inj hvalue)

/-- The values of a tuple have bytes. -/
theorem exists_serialize_of_mem {values : List Value} {data : List UInt8}
    (h : Tuple.serializeAll values = some data) {v : Value} (hv : v ∈ values) :
    ∃ bytes, v.serialize = some bytes := by
  induction values generalizing data with
  | nil => exact absurd hv List.not_mem_nil
  | cons w values ih =>
    rw [Tuple.serializeAll] at h
    split at h
    · rename_i bytes rest hbytes hrest
      rcases List.mem_cons.mp hv with rfl | hv
      · exact ⟨bytes, hbytes⟩
      · exact ih hrest hv
    · cases h

/-- A column without a type has no values, so that there are no joined rows. -/
theorem agreesOnPairs_of_invalid {left right : Schema} {c : Column}
    (hc : c ∈ left.given ++ right.given) (htype : c.type = .invalid) (ref : ExpressionRef) :
    AgreesOnPairs left right ref := by
  intro leftTuple rightTuple joined ⟨leftValues, hleft, hmatches⟩
    ⟨rightValues, hright, hmatches'⟩ hjoin
  exfalso
  have hall : List.Forall₂ (fun c v => v.getTypeId = c.type) (left.given ++ right.given)
      (leftValues ++ rightValues) := List.rel_append hmatches hmatches'
  obtain ⟨hlen, hget⟩ := List.forall₂_iff_get.mp hall
  obtain ⟨i, hi, hci⟩ := List.getElem_of_mem hc
  have hi' : i < (leftValues ++ rightValues).length := hlen ▸ hi
  have hv := hget i hi hi'
  have hcolumn : (left.given ++ right.given).get ⟨i, hi⟩ = c := hci
  rw [joinRow, hleft, hright] at hjoin
  obtain ⟨data, hdata, -⟩ := Option.map_eq_some_iff.mp hjoin
  obtain ⟨bytes, hbytes⟩ := exists_serialize_of_mem hdata (List.get_mem _ ⟨i, hi'⟩)
  rw [hcolumn, htype] at hv
  cases hvalue : (leftValues ++ rightValues).get ⟨i, hi'⟩ with
  | null type =>
    rw [hvalue] at hv hbytes
    cases hv
    cases hbytes
  | boolean => rw [hvalue] at hv; cases hv
  | integer => rw [hvalue] at hv; cases hv
  | float => rw [hvalue] at hv; cases hv
  | varchar => rw [hvalue] at hv; cases hv

/-! ## Which joins are safe -/

/-- No column of the right table can be named: its alias is that of the left table, as in
a join of a table with itself, and the left table has a column with each of its names. -/
def RightHidden (leftAlias : String) (left : Schema) (rightAlias : String) (right : Schema) :
    Prop :=
  ∀ c ∈ right.given, (∃ c' ∈ left.given, c'.name = c.name) ∧
    (rightAlias = "" ∨ rightAlias = leftAlias)

section

variable {stof : String → Option UInt32} {leftAlias rightAlias : String} {left right : Schema}

theorem isColumn_of_resolve {colName tableQualifier : String} {tupleIdx colIdx : Nat}
    {type : TypeId} (h : resolveColumn colName tableQualifier
      (joinScopes leftAlias left rightAlias right) = some (tupleIdx, colIdx, type)) :
    IsColumn left right tupleIdx colIdx := by
  obtain ⟨scope, hmem, rfl, -, c, hc, -⟩ := resolveColumn_spec h
  have hlt := (List.getElem?_eq_some_iff.mp hc).1
  rcases List.mem_pair.mp hmem with rfl | rfl
  · exact .inl ⟨rfl, hlt⟩
  · exact .inr ⟨rfl, hlt⟩

theorem isLeft_of_hidden (hhidden : RightHidden leftAlias left rightAlias right)
    {colName tableQualifier : String} {tupleIdx colIdx : Nat} {type : TypeId}
    (h : resolveColumn colName tableQualifier (joinScopes leftAlias left rightAlias right) =
      some (tupleIdx, colIdx, type)) : IsLeft left tupleIdx colIdx := by
  obtain ⟨scope, hmem, rfl, hqualifier, c, hc, hname⟩ := resolveColumn_spec h
  have hlt := (List.getElem?_eq_some_iff.mp hc).1
  rcases List.mem_pair.mp hmem with rfl | rfl
  · exact ⟨rfl, hlt⟩
  · -- the name is found in the left table already
    obtain ⟨⟨c', hc', hname'⟩, halias⟩ := hhidden c (List.mem_of_getElem? hc)
    have hqualifier' : tableQualifier = "" ∨ tableQualifier = leftAlias := by
      rcases hqualifier with hempty | hright
      · exact .inl hempty
      · exact halias.imp hright.trans hright.trans
    obtain ⟨i, type', hfirst⟩ := @resolveColumn_first _ _ ⟨leftAlias, left, 0⟩
      [⟨rightAlias, right, 1⟩] hqualifier' _ hc' (hname'.trans hname)
    have heq := Option.some.inj (hfirst.symm.trans h)
    exact absurd (congrArg Prod.fst heq) Nat.zero_ne_one

/-- A column of the right table that is not hidden can be named. -/
theorem exists_bind_right (h : ¬ RightHidden leftAlias left rightAlias right) :
    ∃ node colIdx type, bindExpression stof (joinScopes leftAlias left rightAlias right) node =
      some (.columnValue 1 colIdx type) ∧ colIdx < right.given.length := by
  simp only [RightHidden, not_forall, not_and_or, not_or, not_exists] at h
  obtain ⟨c, hc, hvisible⟩ := h
  have hnode : ∀ tableQualifier, (tableQualifier = "" ∨ tableQualifier = rightAlias) →
      ((tableQualifier ≠ "" ∧ tableQualifier ≠ leftAlias) ∨ ∀ c' ∈ left.given, c'.name ≠ c.name) →
      ∃ colIdx type, bindName (joinScopes leftAlias left rightAlias right) c.name tableQualifier =
        some (.columnValue 1 colIdx type) ∧ colIdx < right.given.length := by
    intro tableQualifier hqualifier hskip
    obtain ⟨i, type, hfirst⟩ := @resolveColumn_first _ _ ⟨rightAlias, right, 1⟩ [] hqualifier
      _ hc rfl
    have hresolve : resolveColumn c.name tableQualifier
        (joinScopes leftAlias left rightAlias right) = some (1, i, type) :=
      (resolveColumn_skip hskip).trans hfirst
    refine ⟨i, type, by rw [bindName, hresolve]; rfl, ?_⟩
    rcases isColumn_of_resolve hresolve with ⟨hzero, -⟩ | ⟨-, hlt⟩
    · exact absurd hzero Nat.one_ne_zero
    · exact hlt
  rcases hvisible with hname | ⟨hempty, halias⟩
  · obtain ⟨colIdx, type, hbind, hlt⟩ := hnode "" (.inl rfl)
      (.inr fun c' hc' => (hname c').resolve_left (not_not_intro hc'))
    exact ⟨.columnRef [.string c.name], colIdx, type, hbind, hlt⟩
  · obtain ⟨colIdx, type, hbind, hlt⟩ := hnode rightAlias (.inr rfl) (.inl ⟨hempty, halias⟩)
    exact ⟨.columnRef [.string rightAlias, .string c.name], colIdx, type, hbind, hlt⟩

/-- **The two evaluations of bound expressions**. An expression over the left table has
the same value on a pair and on the joined row. All bound expressions do exactly if no
column of the right table can be named, the left table has no columns, or there are no
rows because a column has no type. -/
theorem agreesOnPairs_iff (stof : String → Option UInt32) (leftAlias : String) (left : Schema)
    (rightAlias : String) (right : Schema) :
    (∀ node ref, bindExpression stof (joinScopes leftAlias left rightAlias right) node = some ref →
      ref.ForallColumns (fun tupleIdx _ => tupleIdx = 0) → AgreesOnPairs left right ref) ∧
    ((∀ node ref, bindExpression stof (joinScopes leftAlias left rightAlias right) node = some ref →
      AgreesOnPairs left right ref) ↔
      RightHidden leftAlias left rightAlias right ∨ left.given = [] ∨
        ∃ c ∈ left.given ++ right.given, c.type = .invalid) := by
  refine ⟨fun node ref hbind hleft => ?_, fun hagrees => ?_, fun h node ref hbind => ?_⟩
  · have hcolumns := forallColumns_of_bind (fun _ _ _ _ _ => isColumn_of_resolve) hbind
    refine agreesOnPairs_of_left ((hcolumns.and hleft).imp fun tupleIdx colIdx hcol => ?_)
    obtain ⟨hleft | ⟨hone, -⟩, hzero⟩ := hcol
    · exact hleft
    · exact absurd (hzero.symm.trans hone) Nat.zero_ne_one
  · by_contra h
    simp only [not_or, not_exists, not_and] at h
    obtain ⟨hvisible, hne, htypes⟩ := h
    obtain ⟨node, colIdx, type, hbind, hlt⟩ := @exists_bind_right stof _ _ _ _ hvisible
    exact not_agreesOnPairs_right hne (fun c hc => htypes c (List.mem_append_left _ hc))
      (fun c hc => htypes c (List.mem_append_right _ hc)) hlt type (hagrees node _ hbind)
  · rcases h with hhidden | hnil | ⟨c, hc, htype⟩
    · exact agreesOnPairs_of_left
        (forallColumns_of_bind (fun _ _ _ _ _ => isLeft_of_hidden hhidden) hbind)
    · exact agreesOnPairs_of_nil hnil
        (forallColumns_of_bind (fun _ _ _ _ _ => isColumn_of_resolve) hbind)
    · exact agreesOnPairs_of_invalid hc htype ref

/-- `SELECT b.y FROM a JOIN b` on the rows 1 and 2 gives 1 over the joined row. -/
theorem rightColumn_disagrees : ∃ ref joined,
    bindExpression (fun _ => none) (joinScopes "a" ⟨[⟨"x", .integer, 0, 0⟩]⟩ "b"
      ⟨[⟨"y", .integer, 0, 0⟩]⟩) (.columnRef [.string "b", .string "y"]) = some ref ∧
    RowMatches ⟨[⟨"x", .integer, 0, 0⟩]⟩ { values := [.integer 1] } ∧
    RowMatches ⟨[⟨"y", .integer, 0, 0⟩]⟩ { values := [.integer 2] } ∧
    joinRow ⟨[⟨"x", .integer, 0, 0⟩]⟩ ⟨[⟨"y", .integer, 0, 0⟩]⟩ { values := [.integer 1] }
      { values := [.integer 2] } = some joined ∧
    ref.evaluate joined ⟨[⟨"x", .integer, 0, 0⟩, ⟨"y", .integer, 0, 0⟩]⟩ = some (.integer 1) ∧
    ref.evaluateJoin { values := [.integer 1] } ⟨[⟨"x", .integer, 0, 0⟩]⟩
      { values := [.integer 2] } ⟨[⟨"y", .integer, 0, 0⟩]⟩ = some (.integer 2) :=
  ⟨.columnValue 1 0 .integer, _, rfl,
    ⟨_, rfl, .cons rfl .nil⟩, ⟨_, rfl, .cons rfl .nil⟩, rfl, rfl, rfl⟩

end

end OneBase
