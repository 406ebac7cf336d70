import OneBase.Lib.Decimal
import OneBase.Server.Protocol

/-!
# The text of a result set (`server/protocol.h`, `server_main.cpp`, `client_main.cpp`)

The server sends a result set as lines of text: the column names, a line for each
row and the number of rows. The client splits the lines again. It takes for the end
of the rows the first line that is empty or begins with a parenthesis, which a row
may be or do as well.

- `formatResult`, `parseResult`: the text and the way the client reads it.
- `parseRows_map_joinPipes`: the rows before the first such row are read.
- `parseResult_formatResult_iff`: a result set is read back exactly when no row looks
  like the end of the rows.
-/

namespace OneBase

open Cpp

/-- The characters `|`, line feed and `(`. -/
def pipe : UInt8 := 124
def newline : UInt8 := 10
def paren : UInt8 := 40

/-! ## The server -/

/-- The loop of `FormatResultHeader` and `FormatResultRow`. -/
def joinPipes : List (List UInt8) → List UInt8
  | [] => []
  | [part] => part
  | part :: parts => part ++ pipe :: joinPipes parts

/-- Model of `FormatResultHeader`. -/
def formatResultHeader (colNames : List (List UInt8)) : List UInt8 := joinPipes colNames

/-- Model of `FormatResultRow`. -/
def formatResultRow (values : List (List UInt8)) : List UInt8 := joinPipes values

/-- The last line: `(1 row)`, `(2 rows)`. -/
def rowCount (n : Nat) : List UInt8 :=
  paren :: (decimal n ++ [32, 114, 111, 119] ++ (if n ≠ 1 then [115] else []) ++ [41])

/-- The body that `HandleQuery` builds of the names and the texts of the values. -/
def formatResult (colNames : List (List UInt8)) (rows : List (List (List UInt8))) : List UInt8 :=
  formatResultHeader colNames ++ newline ::
    (rows.flatMap fun vals => formatResultRow vals ++ [newline]) ++ rowCount rows.length

/-! ## The client -/

/-- The loop of `ParsePipeSeparated`, with the parts so far and the one being read. -/
def parseFrom : List UInt8 → List (List UInt8) → List UInt8 → List (List UInt8)
  | [], parts, current => parts ++ [current]
  | c :: line, parts, current =>
    if c = pipe then parseFrom line (parts ++ [current]) []
    else parseFrom line parts (current ++ [c])

/-- Model of `ParsePipeSeparated`. -/
def parsePipeSeparated (line : List UInt8) : List (List UInt8) := parseFrom line [] []

/-- The loop `while (std::getline(iss, line))`, with the line being read. What follows
the last line feed is a line if it is not empty. -/
def getlines : List UInt8 → List UInt8 → List (List UInt8)
  | [], line => if line = [] then [] else [line]
  | c :: rest, line =>
    if c = newline then line :: getlines rest [] else getlines rest (line ++ [c])

/-- The loop over the lines after the header (client_main.cpp:34–39). -/
def parseRows : List (List UInt8) → List (List (List UInt8))
  | [] => []
  | line :: lines =>
    if line = [] ∨ line.head? = some paren then []
    else parsePipeSeparated line :: parseRows lines

/-- The header and the rows that `PrintResult` gets from the body. -/
def parseResult (body : List UInt8) : Option (List (List UInt8) × List (List (List UInt8))) :=
  match getlines body [] with
  | [] => none
  | header :: lines => some (parsePipeSeparated header, parseRows lines)

/-! ## Lines and parts -/

/-- A string with neither a `|` nor a line feed. -/
def Clean (part : List UInt8) : Prop := pipe ∉ part ∧ newline ∉ part

theorem getlines_append {line : List UInt8} (hline : newline ∉ line) (rest : List UInt8) :
    ∀ start, getlines (line ++ newline :: rest) start = (start ++ line) :: getlines rest [] := by
  induction line with
  | nil => intro start; simp [getlines]
  | cons c line ih =>
    intro start
    obtain ⟨hc, hrest⟩ := List.ne_and_not_mem_of_not_mem_cons hline
    rw [List.cons_append, getlines, if_neg (Ne.symm hc), ih hrest, List.append_assoc]
    rfl

theorem getlines_last {line : List UInt8} (hline : newline ∉ line) :
    ∀ {start}, start ++ line ≠ [] → getlines line start = [start ++ line] := by
  induction line with
  | nil => intro start hne; simpa [getlines] using hne
  | cons c line ih =>
    intro start hne
    obtain ⟨hc, hrest⟩ := List.ne_and_not_mem_of_not_mem_cons hline
    rw [getlines, if_neg (Ne.symm hc), ih hrest (by simp), List.append_assoc]
    rfl

theorem parseFrom_append {part : List UInt8} (hpart : pipe ∉ part) (rest : List UInt8)
    (parts : List (List UInt8)) :
    ∀ start, parseFrom (part ++ pipe :: rest) parts start =
      parseFrom rest (parts ++ [start ++ part]) [] := by
  induction part with
  | nil => intro start; simp [parseFrom]
  | cons c part ih =>
    intro start
    obtain ⟨hc, hrest⟩ := List.ne_and_not_mem_of_not_mem_cons hpart
    rw [List.cons_append, parseFrom, if_neg (Ne.symm hc), ih hrest, List.append_assoc]
    rfl

theorem parseFrom_last {part : List UInt8} (hpart : pipe ∉ part) (parts : List (List UInt8)) :
    ∀ start, parseFrom part parts start = parts ++ [start ++ part] := by
  induction part with
  | nil => intro start; simp [parseFrom]
  | cons c part ih =>
    intro start
    obtain ⟨hc, hrest⟩ := List.ne_and_not_mem_of_not_mem_cons hpart
    rw [parseFrom, if_neg (Ne.symm hc), ih hrest, List.append_assoc]
    rfl

/-- **The parts of a line are read back.** -/
theorem parsePipeSeparated_joinPipes {parts : List (List UInt8)} (hne : parts ≠ [])
    (hclean : ∀ part ∈ parts, Clean part) : parsePipeSeparated (joinPipes parts) = parts := by
  have hfrom : ∀ before, parseFrom (joinPipes parts) before [] = before ++ parts := by
    induction parts with
    | nil => exact absurd rfl hne
    | cons part parts ih =>
      intro before
      have hpart := (hclean part List.mem_cons_self).1
      cases parts with
      | nil => rw [joinPipes, parseFrom_last hpart, List.nil_append]
      | cons part' parts =>
        rw [joinPipes, parseFrom_append hpart, List.nil_append,
          ih (List.cons_ne_nil _ _) (fun p hp => hclean p (List.mem_cons_of_mem _ hp)),
          List.append_assoc]
        · rfl
        · exact List.cons_ne_nil _ _
  rw [parsePipeSeparated, hfrom, List.nil_append]

theorem newline_notMem_joinPipes {parts : List (List UInt8)} (hclean : ∀ part ∈ parts, Clean part) :
    newline ∉ joinPipes parts := by
  induction parts with
  | nil => exact List.not_mem_nil
  | cons part parts ih =>
    have hpart := (hclean part List.mem_cons_self).2
    have hrest := ih fun p hp => hclean p (List.mem_cons_of_mem _ hp)
    cases parts with
    | nil => exact hpart
    | cons part' parts =>
      rw [joinPipes, List.mem_append, List.mem_cons]
      · rintro (h | h | h)
        · exact hpart h
        · exact absurd h (by decide)
        · exact hrest h
      · exact List.cons_ne_nil _ _

/-! ## The result set -/

/-- The client takes the line of the row for the end of the rows: it is empty, or
begins with a parenthesis. -/
def LooksLikeEnd (row : List (List UInt8)) : Prop :=
  row = [[]] ∨ ∃ text rest, row = (paren :: text) :: rest

/-- The test of the client on the line of a row. -/
theorem looksLikeEnd_iff {row : List (List UInt8)} (hne : row ≠ []) :
    joinPipes row = [] ∨ (joinPipes row).head? = some paren ↔ LooksLikeEnd row := by
  have hpipe : pipe ≠ paren := by decide
  cases row with
  | nil => exact absurd rfl hne
  | cons part parts =>
    cases parts with
    | nil =>
      cases part with
      | nil => simp [joinPipes, LooksLikeEnd]
      | cons c text => simp [joinPipes, LooksLikeEnd]
    | cons part' parts =>
      cases part with
      | nil => simp [joinPipes, LooksLikeEnd, hpipe]
      | cons c text => simp [joinPipes, LooksLikeEnd]

/-- The lines of the body. -/
theorem getlines_formatResult {colNames : List (List UInt8)} {rows : List (List (List UInt8))}
    (hnames : ∀ name ∈ colNames, Clean name) (hrows : ∀ row ∈ rows, ∀ v ∈ row, Clean v) :
    getlines (formatResult colNames rows) [] =
      joinPipes colNames :: (rows.map joinPipes ++ [rowCount rows.length]) := by
  have hcount : ∀ n, newline ∉ rowCount n := by
    intro n hmem
    have hdigits : newline ∉ decimal n := fun h => absurd (mem_decimal h).1 (by decide)
    by_cases hn : n = 1 <;> simp [rowCount, hn, paren, newline] at hmem hdigits
    · exact hdigits (hn ▸ hmem)
    · exact hdigits hmem
  have hlines : ∀ n, getlines ((rows.flatMap fun vals => formatResultRow vals ++ [newline]) ++
      rowCount n) [] = rows.map joinPipes ++ [rowCount n] := by
    intro n
    induction rows with
    | nil => exact getlines_last (hcount n) (by simp [rowCount])
    | cons row rows ih =>
      have hrow := newline_notMem_joinPipes (hrows row List.mem_cons_self)
      have hrest := ih fun r hr => hrows r (List.mem_cons_of_mem _ hr)
      rw [List.flatMap_cons, List.append_assoc, List.append_assoc, List.singleton_append,
        formatResultRow, getlines_append hrow, hrest]
      rfl
  rw [formatResult, formatResultHeader, List.append_assoc, List.cons_append,
    getlines_append (newline_notMem_joinPipes hnames), hlines, List.nil_append]

/-- The rows before the first that looks like the end are read. -/
theorem parseRows_map_joinPipes {rows : List (List (List UInt8))} (n : Nat)
    (hne : ∀ row ∈ rows, row ≠ []) (hclean : ∀ row ∈ rows, ∀ v ∈ row, Clean v) :
    parseRows (rows.map joinPipes ++ [rowCount n]) = rows ↔ ∀ row ∈ rows, ¬ LooksLikeEnd row := by
  induction rows with
  | nil => simp [parseRows, rowCount]
  | cons row rows ih =>
    have hend := looksLikeEnd_iff (hne row List.mem_cons_self)
    have hparts := parsePipeSeparated_joinPipes (hne row List.mem_cons_self)
      (hclean row List.mem_cons_self)
    have hrest := ih (fun r hr => hne r (List.mem_cons_of_mem _ hr))
      fun r hr => hclean r (List.mem_cons_of_mem _ hr)
    rw [List.map_cons, List.cons_append, parseRows, List.forall_mem_cons]
    by_cases hlooks : LooksLikeEnd row
    · rw [if_pos (hend.mpr hlooks)]
      exact ⟨fun h => absurd h (List.cons_ne_nil _ _).symm, fun h => absurd hlooks h.1⟩
    · rw [if_neg (fun h => hlooks (hend.mp h)), hparts, List.cons_inj_right, hrest]
      exact ⟨fun h => ⟨hlooks, h⟩, fun h => h.2⟩

/-- **The client reads back what the server sent** exactly when no row looks like the
end of the rows. -/
theorem parseResult_formatResult_iff {colNames : List (List UInt8)}
    {rows : List (List (List UInt8))} (hcols : colNames ≠ [])
    (hrows : ∀ row ∈ rows, row.length = colNames.length)
    (hnames : ∀ name ∈ colNames, Clean name) (hclean : ∀ row ∈ rows, ∀ v ∈ row, Clean v) :
    parseResult (formatResult colNames rows) = some (colNames, rows) ↔
      ∀ row ∈ rows, ¬ LooksLikeEnd row := by
  have hne : ∀ row ∈ rows, row ≠ [] := by
    rintro row hrow rfl
    exact hcols (List.length_eq_zero_iff.mp (hrows _ hrow).symm)
  rw [parseResult, getlines_formatResult hnames hclean]
  simp only [parsePipeSeparated_joinPipes hcols hnames, Option.some.injEq, Prod.mk.injEq, true_and]
  exact parseRows_map_joinPipes _ hne hclean

/-- The rows `x` and `(y` of a column `a`: the second ends the first. -/
theorem parseResult_paren : ¬ parseResult (formatResult [[97]] [[[120]], [[40, 121]]]) =
    some ([[97]], [[[120]], [[40, 121]]]) := by
  decide

/-- The rows `1|(` and `2|` of two columns are read back. -/
theorem parseResult_formatResult_iff_two :
    parseResult (formatResult [[97], [98]] [[[49], [40]], [[50], []]]) =
      some ([[97], [98]], [[[49], [40]], [[50], []]]) := by
  refine (parseResult_formatResult_iff (by decide) (by decide) ?_ ?_).mpr ?_
  · simp [Clean, pipe, newline]
  · simp [Clean, pipe, newline]
  · simp [LooksLikeEnd, paren]

end OneBase
