import OneBase.Execution.Aggregation

/-!
# The keys of groups (`aggregation_executor.cpp`)

The key of a group is a text, from which the group-by values are read back. A part of
the key ends at the first separator, and becomes NULL or an INTEGER if it looks like
one.

- `decodeKey_encodeKey`: values are read back part by part if their texts have no
  separator.
- `ReadBack`: the values that are read back; `Survives`: the strings.
- `keepsGroups_iff`: VARCHAR groups are kept apart and output as they are exactly when
  all their strings survive.
-/

namespace OneBase

open Cpp

/-! ## Reading a key -/

theorem findSeparator_append (before : List UInt8) {part : List UInt8}
    (hpart : keySeparator ∉ part) (after : List UInt8) :
    findSeparator (before ++ (part ++ keySeparator :: after)) before.length =
      some (before.length + part.length) := by
  have hfind : (part ++ keySeparator :: after).findIdx? (fun c => c == keySeparator) =
      some part.length := by
    induction part with
    | nil => rfl
    | cons c part ih =>
      obtain ⟨hc, hrest⟩ := List.ne_and_not_mem_of_not_mem_cons hpart
      rw [List.cons_append, List.findIdx?_cons, if_neg (by simpa using Ne.symm hc), ih hrest]
      rfl
  rw [findSeparator, List.drop_left, hfind]
  rfl

/-- One part of a key is read, up to its separator. -/
theorem decodeKey_append (before : List UInt8) {part : List UInt8}
    (hpart : keySeparator ∉ part) (after : List UInt8) (n : Nat) :
    decodeKey (before ++ (part ++ keySeparator :: after)) (n + 1) before.length =
      partValue part ::
        decodeKey (before ++ (part ++ keySeparator :: after)) n
          (before.length + part.length + 1) := by
  rw [decodeKey, findSeparator_append before hpart after]
  simp

/-- **Values are read back** part by part, if no text has a separator. -/
theorem decodeKey_encodeKey {values : List Value}
    (hparts : ∀ v ∈ values, keySeparator ∉ v.toString) :
    ∀ before : List UInt8, decodeKey (before ++ encodeKey values) values.length before.length =
      values.map fun v => partValue v.toString := by
  induction values with
  | nil => exact fun _ => rfl
  | cons v values ih =>
    intro before
    have hkey : before ++ encodeKey (v :: values) =
        before ++ (v.toString ++ keySeparator :: encodeKey values) := by
      simp [encodeKey]
    have hsplit : before ++ (v.toString ++ keySeparator :: encodeKey values) =
        (before ++ (v.toString ++ [keySeparator])) ++ encodeKey values := by
      simp
    have hlen : before.length + v.toString.length + 1 =
        (before ++ (v.toString ++ [keySeparator])).length := by
      simp [Nat.add_assoc]
    have hrest := ih (fun w hw => hparts w (List.mem_cons_of_mem _ hw))
      (before ++ (v.toString ++ [keySeparator]))
    rw [hkey, List.length_cons, decodeKey_append before (hparts v List.mem_cons_self), hsplit, hlen,
      hrest, List.map_cons]

/-- A part of a key has no separator. -/
theorem not_mem_part {key : List UInt8} {pos nextPos : Nat}
    (h : findSeparator key pos = some nextPos) :
    keySeparator ∉ (key.drop pos).take (nextPos - pos) := by
  obtain ⟨i, hi, rfl⟩ := Option.map_eq_some_iff.mp h
  obtain ⟨hlt, -, hbefore⟩ := List.findIdx?_eq_some_iff_getElem.mp hi
  rw [Nat.add_sub_cancel_left]
  intro hmem
  obtain ⟨j, hj, hget⟩ := List.getElem_of_mem hmem
  have hji : j < i := Nat.lt_of_lt_of_le hj (by simp)
  refine hbefore j hji ?_
  rw [← List.getElem_take (h := hj), hget]
  exact beq_self_eq_true _

/-- **The strings that are read back** from a key: they have no separator, are not the
text of NULL and do not begin with a number. -/
def Survives (s : List UInt8) : Prop :=
  keySeparator ∉ s ∧ s ≠ [78, 85, 76, 76] ∧ stoi s = none

instance (s : List UInt8) : Decidable (Survives s) := inferInstanceAs (Decidable (_ ∧ _ ∧ _))

theorem partValue_of_survives {s : List UInt8} (h : Survives s) : partValue s = .varchar s := by
  rw [partValue, if_neg h.2.1, h.2.2]

/-- A part that becomes a string survives, if it has no separator. -/
theorem survives_of_partValue {part s : List UInt8} (hpart : keySeparator ∉ part)
    (h : partValue part = .varchar s) : Survives s := by
  rw [partValue] at h
  split at h
  · cases h
  · rename_i hnull
    split at h
    · cases h
    · rename_i hnumber
      cases h
      exact ⟨hpart, hnull, hnumber⟩

/-- **The values that are read back** from their own text. -/
def ReadBack (v : Value) : Prop := keySeparator ∉ v.toString ∧ partValue v.toString = v

theorem readBack_integer {v : Value} (htype : v.getTypeId = .integer) : ReadBack v := by
  cases v with
  | null type =>
    cases htype
    exact ⟨by decide, rfl⟩
  | integer i =>
    have hdigit : ∀ {n : Nat} {b : UInt8}, b ∈ decimal n → 48 ≤ b.toNat ∧ b.toNat < 58 :=
      mem_decimal
    refine ⟨fun hmem => ?_, ?_⟩
    · rw [Value.toString, decimalInt] at hmem
      split at hmem
      · rcases List.mem_cons.mp hmem with heq | hmem
        · exact absurd heq (by decide)
        · exact absurd (hdigit hmem).2 (by decide)
      · exact absurd (hdigit hmem).2 (by decide)
    · have hnull : decimalInt i.toInt ≠ [78, 85, 76, 76] := by
        intro heq
        have hread := stoi_decimalInt (i := i.toInt) ⟨i.le_toInt, i.toInt_lt⟩
        have hnone : stoi [78, 85, 76, 76] = none := by decide
        rw [heq, hnone] at hread
        cases hread
      rw [Value.toString, partValue, if_neg hnull, stoi_decimalInt ⟨i.le_toInt, i.toInt_lt⟩]
      simp
  | boolean => cases htype
  | float => cases htype
  | varchar => cases htype

theorem readBack_varchar {s : List UInt8} : ReadBack (.varchar s) ↔ Survives s := by
  constructor
  · exact fun h => survives_of_partValue h.1 h.2
  · exact fun h => ⟨h.1, partValue_of_survives h⟩

theorem readBack_partValue {part : List UInt8} (hpart : keySeparator ∉ part) :
    ReadBack (partValue part) := by
  rw [partValue]
  split
  · exact readBack_integer rfl
  · rename_i hnull
    split
    · exact readBack_integer rfl
    · rename_i hnumber
      exact readBack_varchar.mpr ⟨hpart, hnull, hnumber⟩

/-- **The values that are read** from any key are read back from their texts. -/
theorem readBack_of_mem_decodeKey {key : List UInt8} {v : Value} :
    ∀ {n pos : Nat}, v ∈ decodeKey key n pos → ReadBack v := by
  intro n
  induction n with
  | zero => exact fun h => absurd h List.not_mem_nil
  | succ n ih =>
    intro pos h
    rw [decodeKey] at h
    split at h
    · rename_i nextPos hfind
      rcases List.mem_cons.mp h with rfl | hrest
      · exact readBack_partValue (not_mem_part hfind)
      · exact ih hrest
    · rename_i hfind
      rcases List.mem_cons.mp h with rfl | hrest
      · refine readBack_partValue fun hmem => ?_
        have hnone := List.findIdx?_eq_none_iff.mp (Option.map_eq_none_iff.mp hfind) _ hmem
        exact absurd hnone (by decide)
      · exact ih hrest

/-! ## Groups of strings -/

namespace AggregationPlan

variable {plan : AggregationPlan} {schema : Schema}

/-- Two rows are in one group if and only if their group-by values are equal, and a row
of the output has the group-by values of the rows of its group. -/
structure KeepsGroups (plan : AggregationPlan) (schema : Schema) (rows : List Tuple)
    (groups : AggMap) : Prop where
  same : ∀ r ∈ rows, ∀ r' ∈ rows, plan.groupKey schema r = plan.groupKey schema r' ↔
    plan.groupValues schema r = plan.groupValues schema r'
  carried : ∀ r ∈ rows, ∀ entry ∈ groups.entries, plan.groupKey schema r = some entry.1 →
    plan.groupValues schema r = some ((plan.entryValues entry).take plan.groupBys.length)

/-- The group-by values are VARCHAR values that are not NULL. -/
def GroupsByStrings (plan : AggregationPlan) (schema : Schema) (tuple : Tuple) : Prop :=
  ∃ strings : List (List UInt8), plan.groupValues schema tuple = some (strings.map .varchar)

theorem groupKey_congr {r r' : Tuple} (h : plan.groupValues schema r = plan.groupValues schema r') :
    plan.groupKey schema r = plan.groupKey schema r' := by
  rw [groupKey, groupKey, h]

theorem length_groupValues {tuple : Tuple} {values : List Value}
    (h : plan.groupValues schema tuple = some values) : values.length = plan.groupBys.length :=
  length_of_mapM h

/-- The columns of the groups are read from the key. -/
theorem decodeKey_length (key : List UInt8) : ∀ n pos, (decodeKey key n pos).length = n := by
  intro n
  induction n with
  | zero => exact fun _ => rfl
  | succ n ih =>
    intro pos
    rw [decodeKey]
    split
    · rw [List.length_cons, ih]
    · rw [List.length_cons, ih]

theorem take_entryValues (plan : AggregationPlan) (entry : Σ _ : List UInt8, List AggregateState) :
    (plan.entryValues entry).take plan.groupBys.length =
      decodeKey entry.1 plan.groupBys.length 0 := by
  rw [entryValues, List.take_append_of_le_length (Nat.le_of_eq (decodeKey_length _ _ _).symm),
    List.take_of_length_le (Nat.le_of_eq (decodeKey_length _ _ _))]

/-- **The values of a row are read back** from its key, if each is read back from its
own text. -/
theorem decodeKey_groupKey {tuple : Tuple} {values : List Value} {key : List UInt8}
    (hvalues : plan.groupValues schema tuple = some values)
    (hkey : plan.groupKey schema tuple = some key)
    (hparts : ∀ v ∈ values, ReadBack v) :
    decodeKey key plan.groupBys.length 0 = values := by
  have hlen := length_groupValues hvalues
  rw [groupKey] at hkey
  split at hkey
  · rename_i hnil
    rw [hnil] at hlen ⊢
    rw [List.length_eq_zero_iff.mp hlen]
    rfl
  · rw [hvalues] at hkey
    obtain rfl := Option.some.inj hkey
    have hdecode := decodeKey_encodeKey (fun v hv => (hparts v hv).1) []
    rw [List.nil_append, List.length_nil, hlen] at hdecode
    rw [hdecode]
    exact (List.map_congr_left fun v hv => (hparts v hv).2).trans (List.map_id _)

/-- The key of a vector of group-by values. -/
def keyOf (plan : AggregationPlan) (values : List Value) : List UInt8 :=
  if plan.groupBys = [] then noGroupKey else encodeKey values

theorem groupKey_of_values {r : Tuple} {values : List Value}
    (hvalues : plan.groupValues schema r = some values) :
    plan.groupKey schema r = some (plan.keyOf values) := by
  rw [groupKey, keyOf, hvalues]
  split
  · rfl
  · rfl

/-- All rows have group-by values, which are read back. -/
def ReadsBack (plan : AggregationPlan) (schema : Schema) (rows : List Tuple) : Prop :=
  ∀ r ∈ rows, ∃ values, plan.groupValues schema r = some values ∧ ∀ v ∈ values, ReadBack v

/-- **The vector of a row is read back** from its key. -/
theorem ReadsBack.decodeKey {rows : List Tuple} (h : ReadsBack plan schema rows) {r : Tuple}
    (hr : r ∈ rows) {values : List Value} (hvalues : plan.groupValues schema r = some values) :
    decodeKey (plan.keyOf values) plan.groupBys.length 0 = values := by
  obtain ⟨values', hvalues', hparts⟩ := h r hr
  obtain rfl : values = values' := Option.some.inj (hvalues.symm.trans hvalues')
  exact decodeKey_groupKey hvalues (groupKey_of_values hvalues) hparts

/-- The rows with the key of a vector that occurs are those with the vector. -/
theorem ReadsBack.rowsWith {rows : List Tuple} (h : ReadsBack plan schema rows) {r : Tuple}
    (hr : r ∈ rows) {values : List Value} (hvalues : plan.groupValues schema r = some values) :
    rowsWith (plan.groupKey schema) rows (plan.keyOf values) =
      rowsWith (plan.groupValues schema) rows values := by
  refine List.filter_congr fun r' hr' => decide_eq_decide.mpr ?_
  obtain ⟨values', hvalues', -⟩ := h r' hr'
  rw [groupKey_of_values hvalues', hvalues', Option.some_inj, Option.some_inj]
  refine ⟨fun hkey => ?_, fun heq => by rw [heq]⟩
  rw [← h.decodeKey hr' hvalues', hkey, h.decodeKey hr hvalues]

/-- **Groups of strings are kept** exactly when all strings survive. -/
theorem keepsGroups_iff_survives {rows : List Tuple} {groups : AggMap}
    (hstrings : ∀ r ∈ rows, plan.GroupsByStrings schema r)
    (hgroups : rows.foldlM (plan.aggregateRow schema) ∅ = some groups) :
    KeepsGroups plan schema rows groups ↔
      ∀ r ∈ rows, ∀ values, plan.groupValues schema r = some values →
        ∀ s, .varchar s ∈ values → Survives s := by
  constructor
  · intro h r hr values hvalues s hs
    obtain ⟨key, hkey⟩ : ∃ key, plan.groupKey schema r = some key := by
      rw [groupKey, hvalues]
      split
      · exact ⟨_, rfl⟩
      · exact ⟨_, rfl⟩
    have hmem : key ∈ groups := ((groupRows_lookup hgroups key).2).mpr (.inr ⟨r, hr, hkey⟩)
    obtain ⟨states, hstates⟩ := Option.isSome_iff_exists.mp (AList.lookup_isSome.mpr hmem)
    have hcarried := h.carried r hr ⟨key, states⟩ (AList.mem_lookup_iff.mp hstates) hkey
    rw [take_entryValues, hvalues] at hcarried
    rw [Option.some.inj hcarried] at hs
    exact readBack_varchar.mp (readBack_of_mem_decodeKey hs)
  · intro h
    have hdecode : ∀ r ∈ rows, ∀ key, plan.groupKey schema r = some key →
        plan.groupValues schema r = some (decodeKey key plan.groupBys.length 0) := by
      intro r hr key hkey
      obtain ⟨strings, hvalues⟩ := hstrings r hr
      rw [hvalues]
      refine congrArg some (decodeKey_groupKey hvalues hkey fun v hv => ?_).symm
      obtain ⟨s, -, rfl⟩ := List.mem_map.mp hv
      exact readBack_varchar.mpr (h r hr _ hvalues s hv)
    refine ⟨fun r hr r' hr' => ⟨fun heq => ?_, groupKey_congr⟩, fun r hr entry _ hkey => ?_⟩
    · cases hkey : plan.groupKey schema r with
      | none =>
        obtain ⟨strings, hvalues⟩ := hstrings r hr
        rw [groupKey, hvalues] at hkey
        split at hkey <;> cases hkey
      | some key => rw [hdecode r hr key hkey, hdecode r' hr' key (heq ▸ hkey)]
    · rw [take_entryValues]
      exact hdecode r hr entry.1 hkey

/-- **The executor keeps groups of strings** exactly when all strings survive, if no
aggregate throws. -/
theorem keepsGroups_iff {σ : Type} {order : MapOrder (List UInt8) (List AggregateState)}
    {child : Executor σ} {rows : List Tuple} (hchild : child.Yields rows) {fuel : Nat}
    (hfuel : rows.length < fuel)
    (hstrings : ∀ r ∈ rows, plan.GroupsByStrings child.outputSchema r)
    (hstates : ∀ key, (foldStates child.outputSchema plan.aggregates plan.newStates
      (rowsWith (plan.groupKey child.outputSchema) rows key)).isSome) :
    ∃ groups out, rows.foldlM (plan.aggregateRow child.outputSchema) ∅ = some groups ∧
      (plan.executor order child fuel).Yields out ∧
      out.map Tuple.values = plan.outputValues order (!rows.isEmpty) groups ∧
      (KeepsGroups plan child.outputSchema rows groups ↔
        ∀ r ∈ rows, ∀ values, plan.groupValues child.outputSchema r = some values →
          ∀ s, .varchar s ∈ values → Survives s) := by
  have hkeys : ∀ r ∈ rows, (plan.groupKey child.outputSchema r).isSome := by
    intro r hr
    obtain ⟨strings, hvalues⟩ := hstrings r hr
    rw [groupKey, hvalues]
    split
    · rfl
    · rfl
  obtain ⟨groups, out, hgroups, hyields, hvalues⟩ :=
    exists_yields hchild hfuel hkeys hstates
  exact ⟨groups, out, hgroups, hyields, hvalues, keepsGroups_iff_survives hstrings hgroups⟩

/-- A GROUP BY of the one column of a table, with a count. -/
def nameCounts : AggregationPlan where
  outputSchema := ⟨[⟨"group_0", .integer, 0, 0⟩, ⟨"agg_0", .integer, 0, 0⟩]⟩
  groupBys := [.columnValue 0 0 .varchar]
  aggregates := [(.countStarAggregate, .columnValue 0 0 .integer)]

/-- A table with a VARCHAR column. -/
def nameSchema : Schema := ⟨[⟨"name", .varchar, 0, 0⟩]⟩

/-- The name `7` becomes a number. -/
theorem nameCounts_number : ∃ groups out,
    [({ values := [.varchar [55]] } : Tuple)].foldlM (nameCounts.aggregateRow nameSchema) ∅ =
      some groups ∧
    (nameCounts.executor (.stored _ _)
      (listExecutor nameSchema [{ values := [.varchar [55]] }]) 2).Yields out ∧
    out.map Tuple.values = [[.integer 7, .integer 1]] ∧
    ¬ KeepsGroups nameCounts nameSchema [{ values := [.varchar [55]] }] groups := by
  have hgroups : [({ values := [.varchar [55]] } : Tuple)].foldlM
      (nameCounts.aggregateRow nameSchema) ∅ =
        some ((∅ : AggMap).insert [55, 124] [{ count := 1 }]) := rfl
  refine ⟨_, _, hgroups, yields (listExecutor_yields _ _) (by decide) hgroups rfl, rfl, ?_⟩
  intro hkeeps
  have hcarried := hkeeps.carried _ (List.mem_singleton_self _) ⟨[55, 124], [{ count := 1 }]⟩
    (List.mem_singleton_self _) rfl
  exact absurd (Option.some.inj hcarried) (by decide)

/-- The names `a`, `b 1` and `a`. -/
def threeNames : List Tuple :=
  [{ values := [.varchar [97]] }, { values := [.varchar [98, 32, 49]] },
    { values := [.varchar [97]] }]

/-- Both names survive. -/
theorem keepsGroups_iff_names : ∃ groups out,
    threeNames.foldlM (nameCounts.aggregateRow nameSchema) ∅ = some groups ∧
    (nameCounts.executor (.stored _ _) (listExecutor nameSchema threeNames) 4).Yields out ∧
    out.map Tuple.values = nameCounts.outputValues (.stored _ _) true groups ∧
    KeepsGroups nameCounts nameSchema threeNames groups := by
  have hvalues : ∀ r ∈ threeNames, nameCounts.groupValues nameSchema r = some [.varchar [97]] ∨
      nameCounts.groupValues nameSchema r = some [.varchar [98, 32, 49]] := by decide
  have hstrings : ∀ r ∈ threeNames, GroupsByStrings nameCounts nameSchema r := by
    intro r hr
    rcases hvalues r hr with h | h
    · exact ⟨[[97]], h⟩
    · exact ⟨[[98, 32, 49]], h⟩
  have hstates : ∀ key, (foldStates nameSchema nameCounts.aggregates nameCounts.newStates
      (rowsWith (nameCounts.groupKey nameSchema) threeNames key)).isSome := by
    intro key
    by_cases hfirst : key = [97, 124]
    · subst hfirst
      rfl
    · by_cases hsecond : key = [98, 32, 49, 124]
      · subst hsecond
        rfl
      · -- no row has this key
        have hkeys : ∀ r ∈ threeNames, nameCounts.groupKey nameSchema r = some [97, 124] ∨
            nameCounts.groupKey nameSchema r = some [98, 32, 49, 124] := by decide
        have hnone : rowsWith (nameCounts.groupKey nameSchema) threeNames key = [] := by
          refine List.eq_nil_iff_forall_not_mem.mpr fun r hr => ?_
          obtain ⟨hr, heq⟩ := mem_rowsWith.mp hr
          rcases hkeys r hr with h | h
          · exact hfirst (Option.some.inj (heq.symm.trans h))
          · exact hsecond (Option.some.inj (heq.symm.trans h))
        rw [hnone]
        rfl
  obtain ⟨groups, out, hgroups, hyields, hout, hiff⟩ := @keepsGroups_iff nameCounts _ (.stored _ _)
    _ _ (listExecutor_yields nameSchema threeNames) 4 (by decide) hstrings hstates
  refine ⟨groups, out, hgroups, hyields, hout, hiff.mpr fun r hr values hr' s hs => ?_⟩
  rcases hvalues r hr with h | h
  · rw [Option.some.inj (hr'.symm.trans h), List.mem_singleton] at hs
    obtain rfl := Value.varchar.inj hs
    decide
  · rw [Option.some.inj (hr'.symm.trans h), List.mem_singleton] at hs
    obtain rfl := Value.varchar.inj hs
    decide

end AggregationPlan

end OneBase
