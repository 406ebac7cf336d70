import OneBase.Optimizer.NLJToHashJoin
import OneBase.Type.FloatText

/-!
# The hash join on FLOAT columns

The nested loop join compares the numbers of two FLOAT keys, the hash join that replaces
it their texts, which have two decimals and a sign.

- `compareEquals_float`: the predicate compares the numbers.
- `getValues_of_joinRow`: the joined row tells what rows it was made of.
- `hashJoin_perm_iff_floatText`: the two joins yield the same rows if and only if the texts
  of the keys are equal for equal keys only.
-/

namespace OneBase

open Cpp

/-- A FLOAT column, in which all rows have a finite number. -/
def FloatColumn (schema : Schema) (col : Nat) (rows : List Tuple) : Prop :=
  (schema.getColumn col).map Column.type = some .float ∧
    ∀ tuple ∈ rows, ∃ x, tuple.getValue schema col = some (.float x) ∧ IsFinite x

/-- Two finite floats are compared as numbers. -/
theorem compareEquals_float {x y : UInt32} (hx : IsFinite x) (hy : IsFinite y) :
    (Value.float x).compareEquals (.float y) =
      some (.boolean (decide (binary32 x = binary32 y))) := by
  rw [← Value.compareFloats_eq hx hy]
  rfl

/-! ## Pairs and rows -/

/-- A pair that is selected. -/
theorem mem_leftMajor_iff {sel : Tuple → Tuple → Bool} {L R : List Tuple} {p : Tuple × Tuple} :
    p ∈ leftMajor sel L R ↔ p.1 ∈ L ∧ p.2 ∈ R ∧ sel p.1 p.2 = true := by
  constructor
  · intro h
    obtain ⟨l, hl, hp⟩ := List.mem_flatMap.mp h
    obtain ⟨r, hr, rfl⟩ := List.mem_map.mp hp
    exact ⟨hl, List.mem_filter.mp hr⟩
  · rintro ⟨hl, hr⟩
    exact List.mem_flatMap.mpr ⟨p.1, hl, List.mem_map.mpr ⟨p.2, List.mem_filter.mpr hr, rfl⟩⟩

/-- **The joined row tells** the values of both rows. -/
theorem getValues_of_joinRow {leftSchema rightSchema : Schema} {l l' r r' tuple : Tuple}
    (h : joinRow leftSchema rightSchema l r = some tuple)
    (h' : joinRow leftSchema rightSchema l' r' = some tuple) :
    l.getValues leftSchema = l'.getValues leftSchema ∧
      r.getValues rightSchema = r'.getValues rightSchema := by
  have hvalues : ∀ {l r : Tuple}, joinRow leftSchema rightSchema l r = some tuple →
      ∃ lvalues rvalues, l.getValues leftSchema = some lvalues ∧
        r.getValues rightSchema = some rvalues ∧ tuple.values = lvalues ++ rvalues := by
    intro l r h
    rw [joinRow] at h
    split at h
    · rename_i lvalues rvalues hl hr
      obtain ⟨data, -, rfl⟩ := Option.map_eq_some_iff.mp h
      exact ⟨lvalues, rvalues, hl, hr, rfl⟩
    · cases h
  obtain ⟨lvalues, rvalues, hl, hr, heq⟩ := hvalues h
  obtain ⟨lvalues', rvalues', hl', hr', heq'⟩ := hvalues h'
  -- the left rows have as many values as there are columns
  have hlen : lvalues.length = lvalues'.length := by
    rw [(Tuple.getElem_getValuesFrom hl).1, (Tuple.getElem_getValuesFrom hl').1]
  obtain ⟨rfl, rfl⟩ := List.append_inj (heq.symm.trans heq') hlen
  exact ⟨hl.trans hl'.symm, hr.trans hr'.symm⟩

/-- Rows with the same values have the same key. -/
theorem getValue_congr {schema : Schema} {t t' : Tuple} {values : List Value}
    (h : t.getValues schema = some values) (heq : t.getValues schema = t'.getValues schema)
    {col : Nat} (hcol : col < schema.getColumnCount) :
    t.getValue schema col = t'.getValue schema col := by
  have hread := (Tuple.getElem_getValuesFrom h).2 col hcol
  have hread' := (Tuple.getElem_getValuesFrom (heq.symm.trans h)).2 col hcol
  rw [Nat.zero_add] at hread hread'
  exact hread.symm.trans hread'

/-- A selection whose rows are among those of another one: the other one has a pair with the
same keys. -/
theorem exists_selected_of_subset {σL σR : Type} {left : Executor σL} {right : Executor σR}
    {L R : List Tuple} {row : Tuple × Tuple → Tuple} (hin : JoinInput left right L R row)
    (hreadL : Readable left.outputSchema L) (hreadR : Readable right.outputSchema R)
    {leftCol rightCol : Nat} (hcolL : leftCol < left.outputSchema.getColumnCount)
    (hcolR : rightCol < right.outputSchema.getColumnCount) {sel sel' : Tuple → Tuple → Bool}
    (hsub : (leftMajor sel L R).map row ⊆ (leftMajor sel' L R).map row) {l r : Tuple} (hl : l ∈ L)
    (hr : r ∈ R) (hselected : sel l r = true) :
    ∃ l' ∈ L, ∃ r' ∈ R,
      l.getValue left.outputSchema leftCol = l'.getValue left.outputSchema leftCol ∧
      r.getValue right.outputSchema rightCol = r'.getValue right.outputSchema rightCol ∧
      sel' l' r' = true := by
  have hmem : (l, r) ∈ leftMajor sel L R := mem_leftMajor_iff.mpr ⟨hl, hr, hselected⟩
  obtain ⟨p, hp, hrow⟩ := List.mem_map.mp (hsub (List.mem_map_of_mem hmem))
  obtain ⟨hl', hr', hselected'⟩ := mem_leftMajor_iff.mp hp
  obtain ⟨hlvalues, hrvalues⟩ := getValues_of_joinRow (hin.joins l hl r hr)
    ((hin.joins p.1 hl' p.2 hr').trans (congrArg some hrow))
  obtain ⟨lvalues, -, hlread, -⟩ := hreadL l hl
  obtain ⟨rvalues, -, hrread, -⟩ := hreadR r hr
  exact ⟨p.1, hl', p.2, hr', getValue_congr hlread hlvalues hcolL,
    getValue_congr hrread hrvalues hcolR, hselected'⟩

/-! ## The two plans -/

/-- The bits of a FLOAT column. -/
def floatBits (schema : Schema) (col : Nat) (tuple : Tuple) : UInt32 :=
  ((tuple.getValue schema col).bind Value.getAsFloat).getD 0

theorem floatBits_eq {schema : Schema} {tuple : Tuple} {col : Nat} {x : UInt32}
    (h : tuple.getValue schema col = some (.float x)) : floatBits schema col tuple = x := by
  rw [floatBits, h]
  rfl

theorem FloatColumn.getValue_eq {schema : Schema} {col : Nat} {rows : List Tuple}
    (hkey : FloatColumn schema col rows) {tuple : Tuple} (h : tuple ∈ rows) :
    tuple.getValue schema col = some (.float (floatBits schema col tuple)) ∧
      IsFinite (floatBits schema col tuple) := by
  obtain ⟨x, hx, hfinite⟩ := hkey.2 tuple h
  rw [floatBits_eq hx]
  exact ⟨hx, hfinite⟩

/-- A selection by the bits of the keys whose rows are among those of another one: keys that
the first one selects are selected by the other one. -/
theorem floatBits_of_subset {σL σR : Type} {left : Executor σL} {right : Executor σR}
    {L R : List Tuple} {row : Tuple × Tuple → Tuple} (hin : JoinInput left right L R row)
    (hreadL : Readable left.outputSchema L) (hreadR : Readable right.outputSchema R)
    {leftCol rightCol : Nat} (hcolL : leftCol < left.outputSchema.getColumnCount)
    (hcolR : rightCol < right.outputSchema.getColumnCount) (p q : UInt32 → UInt32 → Prop)
    [DecidableRel p] [DecidableRel q]
    (hsub : (leftMajor (fun l r => decide (p (floatBits left.outputSchema leftCol l)
        (floatBits right.outputSchema rightCol r))) L R).map row ⊆
      (leftMajor (fun l r => decide (q (floatBits left.outputSchema leftCol l)
        (floatBits right.outputSchema rightCol r))) L R).map row)
    {l r : Tuple} (hl : l ∈ L) (hr : r ∈ R)
    (h : p (floatBits left.outputSchema leftCol l) (floatBits right.outputSchema rightCol r)) :
    q (floatBits left.outputSchema leftCol l) (floatBits right.outputSchema rightCol r) := by
  obtain ⟨l', -, r', -, hxl, hyr, hselected⟩ :=
    exists_selected_of_subset hin hreadL hreadR hcolL hcolR hsub hl hr (decide_eq_true h)
  have hq := of_decide_eq_true hselected
  rw [floatBits, floatBits, ← hxl, ← hyr] at hq
  exact hq

/-- **The hash join on FLOAT columns yields the rows of the nested loop join** if and only if
the text of a left key is that of a right key for equal keys only. -/
theorem hashJoin_perm_iff_floatText {σL σR P : Type} {left : Executor σL} {right : Executor σR}
    {L R : List Tuple} (hleft : left.Yields L) (hright : right.Yields R)
    (hreadL : Readable left.outputSchema L) (hreadR : Readable right.outputSchema R)
    {predicate : Expr} {leftCol rightCol : Nat}
    (hpred : EquatesColumns predicate leftCol rightCol)
    (hkeyL : FloatColumn left.outputSchema leftCol L)
    (hkeyR : FloatColumn right.outputSchema rightCol R)
    (outputSchema : Schema) (leftPlan rightPlan : P) :
    ∃ leftKeyExpr rightKeyExpr rows rows' n,
      optimizeNLJToHashJoin
          (.nestedLoopJoin outputSchema leftPlan rightPlan (some predicate)) =
        .hashJoin outputSchema leftPlan rightPlan leftKeyExpr rightKeyExpr ∧
      (∀ fuel ≥ n,
        (NestedLoopJoin.executor left right (some predicate) fuel outputSchema).Yields rows ∧
        (HashJoin.executor left right leftKeyExpr rightKeyExpr fuel outputSchema).Yields rows') ∧
      (rows'.Perm rows ↔ ∀ l ∈ L, ∀ r ∈ R, ∀ x y,
        l.getValue left.outputSchema leftCol = some (.float x) →
        r.getValue right.outputSchema rightCol = some (.float y) →
        (Value.floatText x = Value.floatText y ↔ binary32 x = binary32 y)) := by
  have hin := joinInput_of_readable hleft hright hreadL hreadR
  have hsel : ∀ l ∈ L, ∀ r ∈ R,
      joinSelects (some predicate) left.outputSchema right.outputSchema l r =
        some (decide (binary32 (floatBits left.outputSchema leftCol l) =
          binary32 (floatBits right.outputSchema rightCol r))) := by
    intro l hl r hr
    obtain ⟨hx, hfiniteX⟩ := hkeyL.getValue_eq hl
    obtain ⟨hy, hfiniteY⟩ := hkeyR.getValue_eq hr
    have hyx := compareEquals_float hfiniteY hfiniteX
    rw [decide_eq_decide.mpr eq_comm] at hyx
    exact (hpred.selects hx hy (compareEquals_float hfiniteX hfiniteY) hyx).2
  obtain ⟨leftKeyExpr, rightKeyExpr, n, hoptimize, hyields⟩ :=
    hpred.yields hin (fun l hl => (hkeyL.getValue_eq hl).1) (fun r hr => (hkeyR.getValue_eq hr).1)
      hsel outputSchema leftPlan rightPlan
  refine ⟨leftKeyExpr, rightKeyExpr, _, _, n, hoptimize, hyields, ?_⟩
  have hcolL := Schema.lt_getColumnCount hkeyL.1
  have hcolR := Schema.lt_getColumnCount hkeyR.1
  -- the hash join selects by the texts of the keys, in another order
  have hperm := (rightMajor_perm_leftMajor (fun l r =>
    decide (Value.floatText (floatBits left.outputSchema leftCol l) =
      Value.floatText (floatBits right.outputSchema rightCol r))) L R).map fun p =>
    (joinRow left.outputSchema right.outputSchema p.1 p.2).getD {}
  constructor
  · intro h l hl r hr x y hx hy
    rw [← floatBits_eq hx, ← floatBits_eq hy]
    constructor
    · exact floatBits_of_subset hin hreadL hreadR hcolL hcolR
        (fun x y => Value.floatText x = Value.floatText y) (fun x y => binary32 x = binary32 y)
        (hperm.symm.trans h).subset hl hr
    · exact floatBits_of_subset hin hreadL hreadR hcolL hcolR (fun x y => binary32 x = binary32 y)
        (fun x y => Value.floatText x = Value.floatText y) (h.symm.trans hperm).subset hl hr
  · intro h
    refine hperm.trans (List.Perm.of_eq (congrArg _ ?_))
    refine List.flatMap_congr fun l hl => ?_
    refine congrArg _ (List.filter_congr fun r hr => ?_)
    exact decide_eq_decide.mpr (h l hl r hr _ _ (hkeyL.getValue_eq hl).1 (hkeyR.getValue_eq hr).1)

/-- A table with one FLOAT column. -/
def floatSchema : Schema := ⟨[⟨"x", .float, 0, 0⟩]⟩

/-- A row with one float. -/
def floatRow (x : UInt32) : Tuple := { values := [.float x] }

theorem readable_floatRows (xs : List UInt32) : Readable floatSchema (xs.map floatRow) := by
  intro tuple htuple
  obtain ⟨x, -, rfl⟩ := List.mem_map.mp htuple
  exact ⟨[.float x], _, rfl, rfl⟩

theorem floatColumn_floatRows {xs : List UInt32} (h : ∀ x ∈ xs, IsFinite x) :
    FloatColumn floatSchema 0 (xs.map floatRow) := by
  refine ⟨rfl, fun tuple htuple => ?_⟩
  obtain ⟨x, hx, rfl⟩ := List.mem_map.mp htuple
  exact ⟨x, rfl, h x hx⟩

/-- The predicate that equates the two columns. -/
def floatEquality : Expr := .comparison (.columnValue 0 0 .float) (.columnValue 1 0 .float) .equal

/-- A row 1.5 and rows 1.5 and 2.5. -/
theorem hashJoin_perm_iff_floatText_rows :
    ∃ leftKeyExpr rightKeyExpr rows rows' n,
      optimizeNLJToHashJoin (.nestedLoopJoin ⟨[]⟩ () () (some floatEquality)) =
        .hashJoin ⟨[]⟩ () () leftKeyExpr rightKeyExpr ∧
      (∀ fuel ≥ n,
        (NestedLoopJoin.executor (listExecutor floatSchema ([1069547520].map floatRow))
          (listExecutor floatSchema ([1069547520, 1075838976].map floatRow)) (some floatEquality)
          fuel ⟨[]⟩).Yields rows ∧
        (HashJoin.executor (listExecutor floatSchema ([1069547520].map floatRow))
          (listExecutor floatSchema ([1069547520, 1075838976].map floatRow)) leftKeyExpr
          rightKeyExpr fuel ⟨[]⟩).Yields rows') ∧
      (rows'.Perm rows ↔ ∀ l ∈ [1069547520].map floatRow,
        ∀ r ∈ [1069547520, 1075838976].map floatRow, ∀ x y,
        l.getValue floatSchema 0 = some (.float x) → r.getValue floatSchema 0 = some (.float y) →
        (Value.floatText x = Value.floatText y ↔ binary32 x = binary32 y)) :=
  hashJoin_perm_iff_floatText (listExecutor_yields _ _) (listExecutor_yields _ _)
    (readable_floatRows _) (readable_floatRows _) ⟨.float, .float, .inl rfl⟩
    (floatColumn_floatRows (List.forall_mem_singleton.mpr (by decide)))
    (floatColumn_floatRows (List.forall_mem_cons.mpr
      ⟨by decide, List.forall_mem_singleton.mpr (by decide)⟩)) _ _ _

/-- **The hash join adds a row**: 0.001 and 0.002 have the text `0.00`. -/
theorem hashJoin_adds_row :
    ∃ leftKeyExpr rightKeyExpr rows rows' n,
      optimizeNLJToHashJoin (.nestedLoopJoin ⟨[]⟩ () () (some floatEquality)) =
        .hashJoin ⟨[]⟩ () () leftKeyExpr rightKeyExpr ∧
      (∀ fuel ≥ n,
        (NestedLoopJoin.executor (listExecutor floatSchema [floatRow 981668463])
          (listExecutor floatSchema [floatRow 990057071]) (some floatEquality) fuel ⟨[]⟩).Yields
            rows ∧
        (HashJoin.executor (listExecutor floatSchema [floatRow 981668463])
          (listExecutor floatSchema [floatRow 990057071]) leftKeyExpr rightKeyExpr fuel
          ⟨[]⟩).Yields rows') ∧
      FloatColumn floatSchema 0 [floatRow 981668463] ∧
      FloatColumn floatSchema 0 [floatRow 990057071] ∧ ¬ rows'.Perm rows := by
  have hin := joinInput_of_readable (listExecutor_yields floatSchema _)
    (listExecutor_yields floatSchema _) (readable_floatRows [981668463])
    (readable_floatRows [990057071])
  have hequates : EquatesColumns floatEquality 0 0 := ⟨.float, .float, .inl rfl⟩
  have hleftKey : ∀ l ∈ [981668463].map floatRow,
      l.getValue floatSchema 0 = some ((fun _ => .float 981668463) l) := by
    intro l hl
    obtain rfl := List.mem_singleton.mp hl
    rfl
  have hrightKey : ∀ r ∈ [990057071].map floatRow,
      r.getValue floatSchema 0 = some ((fun _ => .float 990057071) r) := by
    intro r hr
    obtain rfl := List.mem_singleton.mp hr
    rfl
  have hsel : ∀ l ∈ [981668463].map floatRow, ∀ r ∈ [990057071].map floatRow,
      joinSelects (some floatEquality) floatSchema floatSchema l r =
        some ((fun _ _ => false) l r) := by
    intro l hl r hr
    obtain rfl := List.mem_singleton.mp hl
    obtain rfl := List.mem_singleton.mp hr
    rfl
  obtain ⟨leftKeyExpr, rightKeyExpr, n, hoptimize, hyields⟩ :=
    hequates.yields hin hleftKey hrightKey hsel ⟨[]⟩ () ()
  have hfinite {x : UInt32} (hx : IsFinite x) : FloatColumn floatSchema 0 [floatRow x] := by
    show FloatColumn floatSchema 0 ([x].map floatRow)
    refine floatColumn_floatRows fun y hy => ?_
    rw [List.mem_singleton.mp hy]
    exact hx
  refine ⟨leftKeyExpr, rightKeyExpr, _, _, n, hoptimize, hyields, hfinite (by decide),
    hfinite (by decide), fun h => ?_⟩
  have htext : Value.floatText 981668463 = Value.floatText 990057071 :=
    (Value.floatText_inj (by decide) (by decide)).mpr (by decide)
  have hlength := h.length_eq
  simp [rightMajor, leftMajor, Value.toString, htext] at hlength

end OneBase
