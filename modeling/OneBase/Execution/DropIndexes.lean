import OneBase.Catalog.Consistency

/-!
# Dropping a list of indexes (`utility_executor.cpp`)

`DROP INDEX` resolves each name of its list and drops the index before it looks at the next name.
An index name without a table is looked up in all tables, in the order of their map; the loop
takes the empty string for "no table yet", so it does not notice that a table of that name has the
index.

- `matchTable_eq`: what the lookup finds.
- `Dropped`: the catalog after some names.
- `dropIndexes_spec`: the loop, with the name at which it throws.
- `initDropIndex_allOrNothing_iff`: when a statement drops all or nothing.
-/

namespace OneBase

/-- Model of `GetAllTables`, in the order of the map. -/
def Catalog.getAllTables (c : Catalog) : List TableInfo := c.tables.entries.map (·.2)

namespace UtilityExecutor

/-- The loop over the tables that have the index (utility_executor.cpp:61–68), with
`matched_table_name`. -/
def matchTable (c : Catalog) (indexName : String) : List TableInfo → String → Except String String
  | [], matchedTableName => .ok matchedTableName
  | tableInfo :: tables, matchedTableName =>
    if (c.getIndexByName indexName tableInfo.name).isSome then
      if matchedTableName ≠ "" then .error ("Ambiguous index name: " ++ indexName)
      else matchTable c indexName tables tableInfo.name
    else matchTable c indexName tables matchedTableName

/-- The loop over the names (utility_executor.cpp:59–78): what it throws or `removed_any`, and the
catalog then. -/
def dropIndexes (tables : List TableInfo) (missingOk : Bool) :
    List String → Catalog → Bool → Except String Bool × Catalog
  | [], c, removedAny => (.ok removedAny, c)
  | indexName :: names, c, removedAny =>
    match matchTable c indexName tables "" with
    | .error message => (.error message, c)
    | .ok matchedTableName =>
      if matchedTableName = "" then
        if missingOk then dropIndexes tables missingOk names c removedAny
        else (.error ("Index not found: " ++ indexName), c)
      else
        let (dropped, c) := c.dropIndex indexName matchedTableName
        dropIndexes tables missingOk names c (dropped || removedAny)

/-- Model of `Init` for `DROP_INDEX`: the row of the result. -/
def initDropIndex (tables : List TableInfo) (objectNames : List String) (missingOk : Bool)
    (c : Catalog) : Except String String × Catalog :=
  match dropIndexes tables missingOk objectNames c false with
  | (.error message, c) => (.error message, c)
  | (.ok removedAny, c) => (.ok (if removedAny then "DROP INDEX" else "DROP INDEX (0 rows)"), c)

/-! ## The lookup -/

section Lookup

variable (c : Catalog) (tables : List TableInfo) (indexName : String)

/-- The tables that have an index of the name. -/
def owners : List String :=
  (tables.filter fun t => (c.getIndexByName indexName t.name).isSome).map TableInfo.name

/-- Those that the loop notices. -/
def visible : List String := (owners c tables indexName).dropWhile (· = "")

variable {c tables indexName}

theorem owners_cons (t : TableInfo) : owners c (t :: tables) indexName =
    if (c.getIndexByName indexName t.name).isSome then t.name :: owners c tables indexName
    else owners c tables indexName := by
  unfold owners
  rw [List.filter_cons]
  split <;> rfl

theorem mem_owners {table : String} : table ∈ owners c tables indexName ↔
    table ∈ tables.map TableInfo.name ∧ (c.getIndexByName indexName table).isSome := by
  unfold owners
  constructor
  · intro h
    obtain ⟨t, ht, rfl⟩ := List.mem_map.mp h
    exact ⟨List.mem_map_of_mem (List.mem_of_mem_filter ht), (List.mem_filter.mp ht).2⟩
  · rintro ⟨htable, hsome⟩
    obtain ⟨t, ht, rfl⟩ := List.mem_map.mp htable
    exact List.mem_map_of_mem (List.mem_filter.mpr ⟨ht, hsome⟩)

/-- A second table is an error. -/
theorem matchTable_of_ne {matched : String} (hne : matched ≠ "") :
    matchTable c indexName tables matched =
      if owners c tables indexName = [] then .ok matched
      else .error ("Ambiguous index name: " ++ indexName) := by
  induction tables with
  | nil => rfl
  | cons t tables ih =>
    rw [matchTable, owners_cons]
    split
    · rw [if_neg (List.cons_ne_nil _ _)]
    · exact ih

/-- **What the lookup finds**: no table, one, or too many. -/
theorem matchTable_eq : matchTable c indexName tables "" =
    match visible c tables indexName with
    | [] => .ok ""
    | [table] => .ok table
    | _ :: _ :: _ => .error ("Ambiguous index name: " ++ indexName) := by
  unfold visible
  induction tables with
  | nil => rfl
  | cons t tables ih =>
    rw [matchTable, owners_cons]
    split
    · rw [if_neg (not_not_intro rfl)]
      by_cases hempty : t.name = ""
      · rw [hempty, ih, List.dropWhile_cons_of_pos (by simp)]
      · rw [matchTable_of_ne hempty, List.dropWhile_cons_of_neg (by simpa using hempty)]
        cases owners c tables indexName with
        | nil => rfl
        | cons _ _ => rfl
    · exact ih

theorem ne_empty_of_visible {table : String} {rest : List String}
    (h : visible c tables indexName = table :: rest) : table ≠ "" := by
  have hhead := List.head?_dropWhile_not (fun t : String => decide (t = ""))
    (owners c tables indexName)
  unfold visible at h
  rw [h] at hhead
  simpa using hhead

theorem visible_eq_nil :
    visible c tables indexName = [] ↔ ∀ table ∈ owners c tables indexName, table = "" := by
  unfold visible
  rw [List.dropWhile_eq_nil_iff]
  simp

/-- A single table that is noticed is the only one, but for the empty name. -/
theorem visible_eq_singleton {table : String} (hne : table ≠ "")
    (h : table ∈ owners c tables indexName) (hsingle : (visible c tables indexName).length ≤ 1) :
    visible c tables indexName = [table] := by
  have hmem : table ∈ visible c tables indexName := by
    unfold visible
    rw [← List.takeWhile_append_dropWhile (p := fun t => decide (t = ""))
      (l := owners c tables indexName)] at h
    refine (List.mem_append.mp h).resolve_left fun htake => hne ?_
    simpa using List.mem_takeWhile_imp htake
  obtain ⟨t, ht⟩ := List.length_eq_one_iff.mp
    (Nat.le_antisymm hsingle (List.length_pos_of_mem hmem))
  rw [ht] at hmem ⊢
  rw [List.mem_singleton.mp hmem]

/-- What the lookup finds depends on the indexes of the name. -/
theorem visible_congr {c' : Catalog}
    (h : ∀ table, c'.getIndexByName indexName table = c.getIndexByName indexName table) :
    visible c' tables indexName = visible c tables indexName := by
  unfold visible owners
  simp only [h]

end Lookup

/-! ## The loop -/

section Loop

variable (c₀ : Catalog) (tables : List TableInfo) (missingOk : Bool)

/-- The statement throws at a name, after it has come to the names before it. -/
def Fails (before : List String) (indexName : String) : Prop :=
  1 < (visible c₀ tables indexName).length ∨
    missingOk = false ∧ (visible c₀ tables indexName = [] ∨ indexName ∈ before)

/-- It throws at no name of a list. -/
def NoneFails (before names : List String) : Prop :=
  ∀ pre name post, names = pre ++ name :: post → ¬ Fails c₀ tables missingOk (before ++ pre) name

/-- The catalog after some names: their indexes are dropped, where the lookup found them. -/
structure Dropped (names : List String) (c : Catalog) : Prop where
  ok : CatalogOk c
  tables_eq : c.tables = c₀.tables ∧ c.tableNames = c₀.tableNames
  single : ∀ name ∈ names, (visible c₀ tables name).length ≤ 1
  getIndexByName : ∀ name table, c.getIndexByName name table =
    if name ∈ names ∧ visible c₀ tables name = [table] then none
    else c₀.getIndexByName name table
  unchanged : (∀ name ∈ names, visible c₀ tables name = []) → c = c₀

variable {c₀ tables missingOk} {c c' : Catalog} {before names : List String} {name : String}

theorem noneFails_cons : NoneFails c₀ tables missingOk before (name :: names) ↔
    ¬ Fails c₀ tables missingOk before name ∧
      NoneFails c₀ tables missingOk (before ++ [name]) names := by
  constructor
  · intro h
    refine ⟨by simpa using h [] name names rfl, fun pre n post heq => ?_⟩
    rw [List.append_assoc]
    exact h (name :: pre) n post (by rw [heq]; rfl)
  · rintro ⟨hname, hnames⟩ pre n post heq
    cases pre with
    | nil =>
      obtain ⟨rfl, -⟩ := List.cons.inj heq
      rwa [List.append_nil]
    | cons m pre =>
      obtain ⟨rfl, hpost⟩ := List.cons.inj heq
      simpa using hnames pre n post hpost

theorem not_fails (hsingle : (visible c₀ tables name).length ≤ 1)
    (hfound : missingOk = false → visible c₀ tables name ≠ [] ∧ name ∉ before) :
    ¬ Fails c₀ tables missingOk before name := by
  rintro (htwo | ⟨hfalse, hnone | hbefore⟩)
  · exact absurd hsingle (Nat.not_le_of_lt htwo)
  · exact (hfound hfalse).1 hnone
  · exact (hfound hfalse).2 hbefore

namespace Dropped

theorem nil (hok : CatalogOk c₀) : Dropped c₀ tables [] c₀ where
  ok := hok
  tables_eq := ⟨rfl, rfl⟩
  single := fun _ h => absurd h List.not_mem_nil
  getIndexByName := fun _ _ => (if_neg fun h => List.not_mem_nil h.1).symm
  unchanged := fun _ => rfl

/-- The indexes of a later name are as before the statement. -/
theorem visible_of_notMem (h : Dropped c₀ tables before c) (hname : name ∉ before) :
    visible c tables name = visible c₀ tables name :=
  visible_congr fun table => by rw [h.getIndexByName, if_neg fun hd => hname hd.1]

/-- An index that was dropped is not found again. -/
theorem visible_of_mem (h : Dropped c₀ tables before c) (hname : name ∈ before) :
    visible c tables name = [] := by
  rw [visible_eq_nil]
  intro table hmem
  by_contra hne
  obtain ⟨htable, hsome⟩ := mem_owners.mp hmem
  rw [h.getIndexByName] at hsome
  split at hsome
  · cases hsome
  · rename_i hkept
    exact hkept ⟨hname, visible_eq_singleton hne (mem_owners.mpr ⟨htable, hsome⟩)
      (h.single name hname)⟩

/-- No index of the name is found. -/
theorem skip (h : Dropped c₀ tables before c) (hnone : visible c₀ tables name = []) :
    Dropped c₀ tables (before ++ [name]) c where
  ok := h.ok
  tables_eq := h.tables_eq
  single := by
    intro n hn
    rcases List.mem_append.mp hn with hn | hn
    · exact h.single n hn
    · rw [List.mem_singleton.mp hn, hnone]
      exact Nat.zero_le _
  getIndexByName := by
    intro n table
    rw [h.getIndexByName]
    refine if_congr ⟨fun hd => ⟨List.mem_append_left _ hd.1, hd.2⟩, fun hd => ⟨?_, hd.2⟩⟩ rfl rfl
    refine (List.mem_append.mp hd.1).resolve_right fun hn => ?_
    rw [List.mem_singleton.mp hn, hnone] at hd
    cases hd.2
  unchanged := fun hall => h.unchanged fun n hn => hall n (List.mem_append_left _ hn)

/-- A name that was handled comes again. -/
theorem again (h : Dropped c₀ tables before c) (hname : name ∈ before) :
    Dropped c₀ tables (before ++ [name]) c := by
  have hmem : ∀ n, n ∈ before ++ [name] ↔ n ∈ before := by
    intro n
    rw [List.mem_append, List.mem_singleton]
    exact or_iff_left_of_imp fun hn => hn ▸ hname
  constructor
  case ok => exact h.ok
  case tables_eq => exact h.tables_eq
  case single => exact fun n hn => h.single n ((hmem n).mp hn)
  case getIndexByName =>
    intro n table
    simp only [hmem]
    exact h.getIndexByName n table
  case unchanged => exact fun hall => h.unchanged fun n hn => hall n ((hmem n).mpr hn)

/-- The index that is found is dropped. -/
theorem drop (h : Dropped c₀ tables before c) {table : String} {r : Bool}
    (hfound : visible c₀ tables name = [table]) (hdrop : c.dropIndex name table = (r, c')) :
    Dropped c₀ tables (before ++ [name]) c' where
  ok := h.ok.dropIndex hdrop
  tables_eq := by
    obtain ⟨-, rfl, -⟩ | ⟨-, -, -, -, -, htables, hnames, -⟩ := dropIndex_cases hdrop
    · exact h.tables_eq
    · exact ⟨htables.trans h.tables_eq.1, hnames.trans h.tables_eq.2⟩
  single := by
    intro n hn
    rcases List.mem_append.mp hn with hn | hn
    · exact h.single n hn
    · rw [List.mem_singleton.mp hn, hfound]
      exact Nat.le_refl _
  getIndexByName := by
    intro n t
    rw [h.ok.getIndexByName_dropIndex hdrop, h.getIndexByName]
    by_cases hn : n = name
    · subst hn
      by_cases ht : t = table
      · simp [hfound, ht]
      · have hne : table ≠ t := Ne.symm ht
        simp [hfound, ht, hne]
    · simp [hn]
  unchanged := by
    intro hall
    have hnone := hall name (List.mem_append_right _ List.mem_cons_self)
    rw [hfound] at hnone
    cases hnone

end Dropped

variable (c₀ tables missingOk before) in
/-- What the loop comes to: it stops at the first name that fails. -/
def Handled (names : List String) (r : Except String Bool) (c : Catalog) : Prop :=
  match r with
  | .ok _ => NoneFails c₀ tables missingOk before names ∧ Dropped c₀ tables (before ++ names) c
  | .error _ => ∃ pre name post, names = pre ++ name :: post ∧
      NoneFails c₀ tables missingOk before pre ∧
      Fails c₀ tables missingOk (before ++ pre) name ∧ Dropped c₀ tables (before ++ pre) c

theorem noneFails_nil : NoneFails c₀ tables missingOk before [] := by
  intro pre name post heq
  cases pre <;> cases heq

theorem Handled.stop {message : String} (hfails : Fails c₀ tables missingOk before name)
    (hd : Dropped c₀ tables before c) :
    Handled c₀ tables missingOk before (name :: names) (.error message) c :=
  ⟨[], name, names, rfl, noneFails_nil, by rwa [List.append_nil], by rwa [List.append_nil]⟩

theorem Handled.cons {r : Except String Bool} (hname : ¬ Fails c₀ tables missingOk before name)
    (h : Handled c₀ tables missingOk (before ++ [name]) names r c) :
    Handled c₀ tables missingOk before (name :: names) r c := by
  have happend : ∀ l : List String, before ++ [name] ++ l = before ++ name :: l := by simp
  cases r with
  | ok _ => exact ⟨noneFails_cons.mpr ⟨hname, h.1⟩, happend names ▸ h.2⟩
  | error _ =>
    obtain ⟨pre, n, post, rfl, hpre, hfails, hd⟩ := h
    exact ⟨name :: pre, n, post, rfl, noneFails_cons.mpr ⟨hname, hpre⟩, happend pre ▸ hfails,
      happend pre ▸ hd⟩

/-- **The loop over the names**, from a catalog after some of them. -/
theorem dropIndexes_spec {removedAny : Bool} {r : Except String Bool}
    (hd : Dropped c₀ tables before c)
    (h : dropIndexes tables missingOk names c removedAny = (r, c')) :
    Handled c₀ tables missingOk before names r c' := by
  induction names generalizing before c removedAny with
  | nil =>
    obtain ⟨rfl, rfl⟩ := Prod.mk.inj h
    exact ⟨noneFails_nil, by rwa [List.append_nil]⟩
  | cons name names ih =>
    rw [dropIndexes, matchTable_eq] at h
    -- what the lookup finds now and what it found before the statement
    by_cases hmem : name ∈ before
    · rw [hd.visible_of_mem hmem] at h
      cases missingOk with
      | false =>
        obtain ⟨rfl, rfl⟩ := Prod.mk.inj h
        exact .stop (.inr ⟨rfl, .inr hmem⟩) hd
      | true =>
        exact .cons (not_fails (hd.single name hmem) nofun) (ih (hd.again hmem) h)
    · rw [hd.visible_of_notMem hmem] at h
      cases hvisible : visible c₀ tables name with
      | nil =>
        rw [hvisible] at h
        cases missingOk with
        | false =>
          obtain ⟨rfl, rfl⟩ := Prod.mk.inj h
          exact .stop (.inr ⟨rfl, .inl hvisible⟩) hd
        | true =>
          refine .cons (not_fails ?_ nofun) (ih (hd.skip hvisible) h)
          rw [hvisible]
          exact Nat.zero_le _
      | cons table rest =>
        have hne := ne_empty_of_visible hvisible
        rw [hvisible] at h
        cases rest with
        | nil =>
          dsimp only at h
          rw [if_neg hne] at h
          refine .cons (not_fails ?_ fun _ => ⟨?_, hmem⟩) (ih (hd.drop hvisible rfl) h)
          · rw [hvisible]
            exact Nat.le_refl _
          · rw [hvisible]
            exact List.cons_ne_nil _ _
        | cons table' rest =>
          obtain ⟨rfl, rfl⟩ := Prod.mk.inj h
          refine .stop (.inl ?_) hd
          rw [hvisible]
          exact Nat.succ_lt_succ (Nat.succ_pos _)

end Loop

/-! ## The statement -/

/-- The named indexes are gone, and all others remain. -/
structure OnlyGone (names : List String) (c c' : Catalog) : Prop where
  ok : CatalogOk c'
  tables_eq : c'.tables = c.tables ∧ c'.tableNames = c.tableNames
  getIndexByName : ∀ name table, c'.getIndexByName name table =
    if name ∈ names then none else c.getIndexByName name table

/-- What a statement is to do to the catalog `c`. -/
def AllOrNothing (names : List String) (c : Catalog) (result : Except String String × Catalog) :
    Prop :=
  match result with
  | (.error _, c') => c' = c
  | (.ok _, c') => OnlyGone names c c'

section Statement

variable {c₀ c : Catalog} {tables : List TableInfo} {missingOk : Bool} {names : List String}

/-- Every index is owned by one of the tables of the catalog. -/
theorem mem_owners_of_isSome (hok : CatalogOk c₀) (htables : tables.Perm c₀.getAllTables)
    {name table : String} (h : (c₀.getIndexByName name table).isSome) :
    table ∈ owners c₀ tables name := by
  refine mem_owners.mpr ⟨(htables.map _).mem_iff.mpr ?_, h⟩
  obtain ⟨index, hindex⟩ := Option.isSome_iff_exists.mp h
  obtain ⟨oid, hoid, hget⟩ := Option.bind_eq_some_iff.mp hindex
  obtain ⟨index', hget', rfl, -⟩ := hok.index_of_name hoid
  obtain ⟨toid, info, hname, hinfo, -⟩ := hok.index_table hget'
  obtain ⟨info', hinfo', hinfoName⟩ := hok.table_of_name hname
  obtain rfl := Option.some.inj (hinfo.symm.trans hinfo')
  rw [← hinfoName]
  refine List.mem_map_of_mem (List.mem_map.mpr ⟨⟨toid, info⟩, ?_, rfl⟩)
  exact AList.mem_lookup_iff.mp hinfo

/-- After all names, nothing of them is left but what the lookup does not notice. -/
theorem Dropped.onlyGone_iff (hok : CatalogOk c₀) (htables : tables.Perm c₀.getAllTables)
    (hd : Dropped c₀ tables names c) :
    OnlyGone names c₀ c ↔ ∀ name ∈ names, "" ∉ owners c₀ tables name := by
  constructor
  · intro h name hname hmem
    have hgone := h.getIndexByName name ""
    rw [if_pos hname, hd.getIndexByName, if_neg fun hv => ne_empty_of_visible hv.2 rfl] at hgone
    rw [mem_owners, hgone] at hmem
    cases hmem.2
  · intro h
    refine ⟨hd.ok, hd.tables_eq, fun name table => ?_⟩
    rw [hd.getIndexByName]
    by_cases hname : name ∈ names
    · rw [if_pos hname]
      split
      · rfl
      · rename_i hkept
        by_contra hsome
        have howns := mem_owners_of_isSome hok htables (Option.ne_none_iff_isSome.mp hsome)
        have hne : table ≠ "" := fun hempty => h name hname (hempty ▸ howns)
        exact hkept ⟨hname, visible_eq_singleton hne howns (hd.single name hname)⟩
    · rw [if_neg hname, if_neg fun hv => hname hv.1]

/-- Nothing was dropped if no name had an index. -/
theorem Dropped.eq_iff (hd : Dropped c₀ tables names c) :
    c = c₀ ↔ ∀ name ∈ names, visible c₀ tables name = [] := by
  refine ⟨?_, hd.unchanged⟩
  rintro rfl name hname
  exact hd.visible_of_mem hname

/-- **When a statement drops all or nothing**: no name fails and no table with an empty name has
an index of one of them, or a name fails and none of those before it had an index. -/
theorem initDropIndex_allOrNothing_iff (hok : CatalogOk c₀)
    (htables : tables.Perm c₀.getAllTables) (names : List String) (missingOk : Bool) :
    AllOrNothing names c₀ (initDropIndex tables names missingOk c₀) ↔
      (NoneFails c₀ tables missingOk [] names ∧ ∀ name ∈ names, "" ∉ owners c₀ tables name) ∨
      ∃ pre name post, names = pre ++ name :: post ∧ Fails c₀ tables missingOk pre name ∧
        ∀ n ∈ pre, visible c₀ tables n = [] := by
  unfold initDropIndex
  cases hrun : dropIndexes tables missingOk names c₀ false with
  | mk r c =>
    have hspec := dropIndexes_spec (Dropped.nil hok) hrun
    cases r with
    | ok removedAny =>
      obtain ⟨hnone, hd⟩ : _ ∧ Dropped c₀ tables names c := hspec
      show OnlyGone names c₀ c ↔ _
      rw [hd.onlyGone_iff hok htables]
      constructor
      · exact fun h => .inl ⟨hnone, h⟩
      · rintro (⟨-, h⟩ | ⟨pre, name, post, hsplit, hfails, -⟩)
        · exact h
        · exact absurd hfails (hnone pre name post hsplit)
    | error message =>
      obtain ⟨pre, name, post, hsplit, hpre, hfails, hd⟩ := hspec
      show c = c₀ ↔ _
      rw [hd.eq_iff]
      constructor
      · exact fun h => .inr ⟨pre, name, post, hsplit, hfails, h⟩
      · rintro (⟨hnone, -⟩ | ⟨pre', name', post', hsplit', hfails', hinvisible⟩)
        · exact absurd hfails (hnone pre name post hsplit)
        · -- no name before the first that fails comes after another that does
          rw [hsplit] at hsplit'
          obtain ⟨more, rfl, -⟩ | ⟨more, rfl, hmore⟩ := List.append_eq_append_iff.mp hsplit'
          · exact fun n hn => hinvisible n (List.mem_append_left _ hn)
          · cases more with
            | nil => rwa [List.append_nil]
            | cons m more =>
              obtain ⟨rfl, -⟩ := List.cons.inj hmore
              exact absurd hfails' (hpre pre' name' more rfl)

end Statement

/-- An empty table `t (a INTEGER)`. -/
def emptyTable : TableInfo := ⟨⟨[⟨"a", .integer, 0, 0⟩]⟩, "t", ⟨0⟩, 1⟩

/-- An index `i` on `a`. -/
def emptyIndex : IndexInfo :=
  { IndexInfo.create ⟨[⟨"a", .integer, 0, 0⟩]⟩ "i" "t" 1 [0] with supportsPointLookup := true }

theorem emptyCatalog_ok : CatalogOk (singleCatalog emptyTable emptyIndex) :=
  singleCatalog_ok rfl rfl ⟨by decide, fun _ => ⟨0, rfl, rfl⟩⟩

/-- `DROP INDEX i` drops it. -/
theorem initDropIndex_allOrNothing_single :
    AllOrNothing ["i"] (singleCatalog emptyTable emptyIndex)
      (initDropIndex [emptyTable] ["i"] false (singleCatalog emptyTable emptyIndex)) := by
  refine (initDropIndex_allOrNothing_iff emptyCatalog_ok (.refl _) ["i"] false).mpr (.inl ⟨?_, ?_⟩)
  · rw [noneFails_cons]
    refine ⟨?_, noneFails_nil⟩
    unfold Fails
    decide
  · decide

/-- `DROP INDEX i, j` throws because there is no `j`, and `i` is gone. -/
theorem initDropIndex_missing : ¬ ∀ (c : Catalog) (tables : List TableInfo) (names : List String)
    (missingOk : Bool), CatalogOk c → tables.Perm c.getAllTables →
    AllOrNothing names c (initDropIndex tables names missingOk c) := by
  intro h
  have hsame : (initDropIndex [emptyTable] ["i", "j"] false
      (singleCatalog emptyTable emptyIndex)).2 = singleCatalog emptyTable emptyIndex :=
    h _ [emptyTable] ["i", "j"] false emptyCatalog_ok (.refl _)
  have hgone : ((initDropIndex [emptyTable] ["i", "j"] false
      (singleCatalog emptyTable emptyIndex)).2.getIndexByName "i" "t").isNone := by decide
  rw [hsame] at hgone
  revert hgone
  decide

end UtilityExecutor

end OneBase
