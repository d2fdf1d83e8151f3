import Mathlib
import UseCaseFlow.Report.Csv

/-!
# Reading CSV reports

A reader for comma-separated values, which goes through a text character by character and knows
nothing of reports. What is written for a list of records is read as these records, and a report is
written as its header and one record for each row.
-/

namespace UseCaseFlow

section Reader

/-- Where a reader stands in a field. The text of the field so far is held in reverse. -/
inductive FieldState where
  /-- Before the first field of a record. A line feed right behind a carriage return belongs to the
  line break that ended the record before. -/
  | first (afterReturn : Bool)
  /-- Behind a comma. -/
  | next
  | plain (held : List Char)
  | quoted (held : List Char)
  /-- Behind a quote in a quoted field. Another quote stands for one in the text. -/
  | closed (held : List Char)
  deriving DecidableEq

structure CsvReader where
  records : List (List String)
  fields : List String
  state : FieldState
  deriving DecidableEq

def FieldState.text : FieldState → String
  | .first _ | .next => ""
  | .plain held | .quoted held | .closed held => String.ofList held.reverse

def CsvReader.endField (r : CsvReader) : CsvReader :=
  { r with fields := r.fields ++ [r.state.text], state := .next }

def CsvReader.endRecord (afterReturn : Bool) (r : CsvReader) : CsvReader where
  records := r.records ++ [r.fields ++ [r.state.text]]
  fields := []
  state := .first afterReturn

/-- Reads one character. Between a closing quote and the end of the field there is no text. -/
def CsvReader.read (r : CsvReader) (c : Char) : Option CsvReader :=
  match r.state, c with
  | .quoted held, '"' => some { r with state := .closed held }
  | .quoted held, c => some { r with state := .quoted (c :: held) }
  | .closed held, '"' => some { r with state := .quoted ('"' :: held) }
  | .first true, '\n' => some { r with state := .first false }
  | _, ',' => some r.endField
  | _, '\n' => some (r.endRecord false)
  | _, '\r' => some (r.endRecord true)
  | .first _, '"' | .next, '"' => some { r with state := .quoted [] }
  | .first _, c | .next, c => some { r with state := .plain [c] }
  | .plain held, c => some { r with state := .plain (c :: held) }
  | .closed _, _ => none

def CsvReader.readAll (r : CsvReader) (cs : List Char) : Option CsvReader :=
  cs.foldlM CsvReader.read r

/-- The records of a text that ends here. The last one may lack its line break, but not a quote. -/
def CsvReader.finish (r : CsvReader) : Option (List (List String)) :=
  match r.state with
  | .first _ => some r.records
  | .quoted _ => none
  | _ => some (r.endRecord false).records

/-- The records of a text of comma-separated values; none if a quoted field is not closed or goes
on behind its closing quote. -/
def readCsv (text : String) : Option (List (List String)) :=
  (CsvReader.readAll ⟨[], [], .first false⟩ text.toList).bind CsvReader.finish

example : readCsv "a,\"b\"\"\r\n\"\r\n,c\n" = some [["a", "b\"\r\n"], ["", "c"]] := by decide

end Reader

section Reading

variable (r : CsvReader)

theorem CsvReader.readAll_cons (c : Char) (cs : List Char) :
    r.readAll (c :: cs) = (r.read c).bind (·.readAll cs) :=
  List.foldlM_cons

theorem CsvReader.readAll_append (left right : List Char) :
    r.readAll (left ++ right) = (r.readAll left).bind (·.readAll right) :=
  List.foldlM_append

def FieldState.Fresh (state : FieldState) : Prop :=
  state = .first false ∨ state = .next

/-- The field may end here, with that text. -/
inductive FieldState.Ends : FieldState → List Char → Prop
  | fresh {state : FieldState} (h : state.Fresh) : Ends state []
  | plain (text : List Char) : Ends (.plain text.reverse) text
  | closed (text : List Char) : Ends (.closed text.reverse) text

variable {r} {text : List Char}

theorem CsvReader.read_comma (h : r.state.Ends text) : r.read ',' =
    some { r with fields := r.fields ++ [String.ofList text], state := .next } := by
  obtain ⟨records, fields, state⟩ := r
  cases h with
  | fresh h => rcases h with rfl | rfl <;> rfl
  | plain text => simp [read, endField, FieldState.text]
  | closed text => simp [read, endField, FieldState.text]

theorem CsvReader.read_newline (h : r.state.Ends text) : r.read '\n' =
    some ⟨r.records ++ [r.fields ++ [String.ofList text]], [], .first false⟩ := by
  obtain ⟨records, fields, state⟩ := r
  cases h with
  | fresh h => rcases h with rfl | rfl <;> rfl
  | plain text => simp [read, endRecord, FieldState.text]
  | closed text => simp [read, endRecord, FieldState.text]

theorem CsvReader.readAll_quoted (records : List (List String)) (fields : List String)
    (held value : List Char) :
    CsvReader.readAll ⟨records, fields, .quoted held⟩ (value.flatMap doubleQuote) =
      some ⟨records, fields, .quoted (value.reverse ++ held)⟩ := by
  induction value generalizing held with
  | nil => rfl
  | cons c value ih =>
    rw [List.flatMap_cons, readAll_append, List.reverse_cons, List.append_assoc,
      List.singleton_append, ← ih]
    by_cases hc : c = '"'
    · subst c
      rfl
    · have hread : CsvReader.read ⟨records, fields, .quoted held⟩ c =
          some ⟨records, fields, .quoted (c :: held)⟩ := by
        simp [read]
      rw [doubleQuote, if_neg hc, readAll_cons, hread]
      rfl

theorem CsvReader.readAll_plain (records : List (List String)) (fields : List String)
    (held : List Char) {value : List Char} (h : ∀ c ∈ value, needsQuotes c = false) :
    CsvReader.readAll ⟨records, fields, .plain held⟩ value =
      some ⟨records, fields, .plain (value.reverse ++ held)⟩ := by
  induction value generalizing held with
  | nil => rfl
  | cons c value ih =>
    rw [List.forall_mem_cons] at h
    have hread : CsvReader.read ⟨records, fields, .plain held⟩ c =
        some ⟨records, fields, .plain (c :: held)⟩ := by
      have hc := h.1
      simp only [needsQuotes, Bool.or_eq_false_iff, beq_eq_false_iff_ne] at hc
      simp [read, hc]
    rw [readAll_cons, hread, Option.bind_some, ih _ h.2, List.reverse_cons, List.append_assoc,
      List.singleton_append]

/-- A written field is read up to where it may end, and holds the value then. -/
theorem CsvReader.readAll_csvField (h : r.state.Fresh) (value : String) : ∃ state,
    r.readAll (csvField value).toList = some { r with state } ∧ state.Ends value.toList := by
  obtain ⟨records, fields, state⟩ := r
  rw [csvField]
  by_cases hquotes : value.toList.any needsQuotes = true
  · refine ⟨.closed (value.toList.reverse ++ []), ?_, ?_⟩
    · have hopen : CsvReader.read ⟨records, fields, state⟩ '"' =
          some ⟨records, fields, .quoted []⟩ := by
        rcases h with h | h
        all_goals
          subst h
          rfl
      rw [if_pos hquotes, String.toList_ofList, List.cons_append, readAll_cons, hopen,
        Option.bind_some, readAll_append, readAll_quoted]
      rfl
    · rw [List.append_nil]
      exact .closed _
  · rw [if_neg hquotes]
    rw [Bool.not_eq_true, List.any_eq_false] at hquotes
    cases hvalue : value.toList with
    | nil => exact ⟨state, rfl, .fresh h⟩
    | cons c rest =>
      simp only [hvalue, Bool.not_eq_true, List.forall_mem_cons] at hquotes
      have hread : CsvReader.read ⟨records, fields, state⟩ c =
          some ⟨records, fields, .plain [c]⟩ := by
        have hc := hquotes.1
        simp only [needsQuotes, Bool.or_eq_false_iff, beq_eq_false_iff_ne] at hc
        rcases h with h | h
        all_goals
          subst h
          simp [read, hc]
      refine ⟨.plain (c :: rest).reverse, ?_, .plain _⟩
      rw [readAll_cons, hread, Option.bind_some, readAll_plain _ _ _ hquotes.2, List.reverse_cons]

theorem toList_csvRecord_cons_cons (first next : String) (fields : List String) :
    (csvRecord (first :: next :: fields)).toList =
      first.toList ++ ',' :: (csvRecord (next :: fields)).toList := by
  rw [csvRecord, csvRecord, String.intercalate_cons_cons, String.toList_append,
    String.toList_append, List.append_assoc]
  rfl

theorem CsvReader.readAll_csvRecord {values : List String} (hne : values ≠ [])
    (h : r.state.Fresh) (rest : List Char) :
    r.readAll ((csvRecord (values.map csvField)).toList ++ '\n' :: rest) =
      CsvReader.readAll ⟨r.records ++ [r.fields ++ values], [], .first false⟩ rest := by
  induction values generalizing r with
  | nil => contradiction
  | cons value values ih =>
    obtain ⟨state, hread, hends⟩ := readAll_csvField h value
    cases values with
    | nil =>
      rw [List.map_singleton, csvRecord, String.intercalate_singleton, readAll_append, hread,
        Option.bind_some, readAll_cons, read_newline hends, String.ofList_toList]
      rfl
    | cons next values =>
      have hrest := ih (List.cons_ne_nil next values)
        (r := ⟨r.records, r.fields ++ [value], .next⟩) (Or.inr rfl)
      rw [List.map_cons, List.map_cons, toList_csvRecord_cons_cons, ← List.map_cons,
        List.append_assoc, List.cons_append, readAll_append, hread, Option.bind_some,
        readAll_cons, read_comma hends, String.ofList_toList, Option.bind_some, hrest,
        List.append_assoc, List.singleton_append]

/-- Records that are written one to a line are read as they were. -/
theorem readCsv_records {table : List (List String)} (hne : ∀ values ∈ table, values ≠ []) :
    readCsv (String.ofList (table.flatMap fun values =>
      (csvRecord (values.map csvField)).toList ++ ['\n'])) = some table := by
  have hread (before : List (List String)) : CsvReader.readAll ⟨before, [], .first false⟩
      (table.flatMap fun values => (csvRecord (values.map csvField)).toList ++ ['\n']) =
        some ⟨before ++ table, [], .first false⟩ := by
    induction table generalizing before with
    | nil =>
      rw [List.append_nil]
      rfl
    | cons values table ih =>
      rw [List.forall_mem_cons] at hne
      rw [List.flatMap_cons, List.append_assoc, List.singleton_append,
        CsvReader.readAll_csvRecord hne.1 (Or.inl rfl), ih hne.2, List.append_assoc]
      rfl
  rw [readCsv, String.toList_ofList, hread]
  rfl

end Reading

section Report

/-- What a report says of a row: its key and six of its counts. -/
def ReportRow.columns (row : ReportRow) : List String :=
  [row.key.req, row.key.ucid, toString row.metrics.entities, toString row.metrics.actors,
    toString row.metrics.explicitActors, toString row.metrics.interactions,
    toString row.metrics.userLevel, toString row.metrics.consecutive]

/-- The row without the count that a report leaves out. -/
def ReportRow.reported (row : ReportRow) : ReportRow :=
  { row with metrics := { row.metrics with explicit := 0 } }

theorem ReportRow.reported_eq_of_columns {row other : ReportRow}
    (h : row.columns = other.columns) : row.reported = other.reported := by
  obtain ⟨⟨req, ucid⟩, metrics⟩ := row
  obtain ⟨⟨req', ucid'⟩, metrics'⟩ := other
  simp only [columns, List.cons.injEq, and_true] at h
  obtain ⟨hreq, hucid, hentities, hactors, hexplicit, hinteractions, huser, hconsecutive⟩ := h
  simp only [reported, ReportRow.mk.injEq, ScenarioKey.mk.injEq, Metrics.mk.injEq, true_and]
  exact ⟨⟨hreq, hucid⟩, Nat.repr_injective hentities, Nat.repr_injective hactors,
    Nat.repr_injective hexplicit, Nat.repr_injective hinteractions, Nat.repr_injective huser,
    Nat.repr_injective hconsecutive⟩

theorem map_reported_eq {rows others : List ReportRow}
    (h : rows.map ReportRow.columns = others.map ReportRow.columns) :
    rows.map ReportRow.reported = others.map ReportRow.reported := by
  induction rows generalizing others with
  | nil =>
    rw [List.map_nil, eq_comm, List.map_eq_nil_iff] at h
    rw [h]
  | cons row rows ih =>
    cases others with
    | nil => contradiction
    | cons other others =>
      obtain ⟨hrow, hrows⟩ := List.cons.inj h
      rw [List.map_cons, List.map_cons, ih hrows, ReportRow.reported_eq_of_columns hrow]

theorem csvField_eq_self {value : String} (h : value.toList.any needsQuotes = false) :
    csvField value = value := by
  rw [csvField, if_neg (Bool.eq_false_iff.mp h)]

theorem csvField_toString (n : Nat) : csvField (toString n) = toString n := by
  apply csvField_eq_self
  rw [List.any_eq_false, Nat.toString_eq_ofList_toDigits, String.toList_ofList]
  intro c hc
  have hdigit := Nat.isDigit_of_mem_toDigits (by decide) (by decide) hc
  intro hquotes
  simp only [needsQuotes, Bool.or_eq_true, beq_iff_eq] at hquotes
  rcases hquotes with ((h | h) | h) | h
  all_goals
    subst h
    contradiction

theorem ReportRow.csvFields_eq_map (row : ReportRow) :
    row.csvFields = row.columns.map csvField := by
  simp only [csvFields, columns, List.map_cons, List.map_nil, csvField_toString]

theorem map_csvField_csvHeader : csvHeader.map csvField = csvHeader := by decide

theorem Report.csvRecords_eq_map (report : Report) : report.csvRecords =
    (csvHeader :: report.rows.map ReportRow.columns).map (csvRecord <| ·.map csvField) := by
  rw [csvRecords, List.map_cons, map_csvField_csvHeader, List.map_map]
  simp only [ReportRow.csvFields_eq_map, Function.comp_def]

private theorem foldl_records (records : List String) (text : String) :
    records.foldl (fun text record => text ++ record ++ "\n") text =
      text ++ String.ofList (records.flatMap fun record => record.toList ++ ['\n']) := by
  induction records generalizing text with
  | nil => simp
  | cons record records ih =>
    rw [List.foldl_cons, ih, List.flatMap_cons, String.ofList_append, String.ofList_append,
      String.ofList_toList, String.append_assoc, String.append_assoc, String.append_assoc]

theorem Report.csv_eq_ofList (report : Report) : report.csv =
    String.ofList (report.csvRecords.flatMap fun record => record.toList ++ ['\n']) := by
  rw [csv, foldl_records, String.empty_append]

theorem readCsv_report (report : Report) :
    readCsv report.csv = some (csvHeader :: report.rows.map ReportRow.columns) := by
  rw [Report.csv_eq_ofList, Report.csvRecords_eq_map, List.flatMap_map]
  apply readCsv_records
  rw [List.forall_mem_cons, List.forall_mem_map]
  exact ⟨List.cons_ne_nil _ _, fun row _ => List.cons_ne_nil _ _⟩

end Report

section Writing

variable {σ ε : Type}

/-- The writer takes every text, and adds its bytes to what was written before. -/
def TakesAll (written : σ → ByteArray) (write : String → StateT σ (Except ε) Unit) : Prop :=
  ∀ text s, ∃ s', (write text).run s = .ok ((), s') ∧ written s' = written s ++ text.toUTF8

theorem exists_run_forM {written : σ → ByteArray} {write : String → StateT σ (Except ε) Unit}
    (h : TakesAll written write) (records : List String) (s : σ) :
    ∃ s', (records.forM fun record => write (record ++ "\n")).run s = .ok ((), s') ∧
      written s' = written s ++
        (String.ofList (records.flatMap fun record => record.toList ++ ['\n'])).toUTF8 := by
  induction records generalizing s with
  | nil => exact ⟨s, rfl, by simp⟩
  | cons record records ih =>
    obtain ⟨s₁, hrun₁, hwritten₁⟩ := h (record ++ "\n") s
    obtain ⟨s₂, hrun₂, hwritten₂⟩ := ih s₁
    refine ⟨s₂, ?_, ?_⟩
    · rw [List.forM_eq_forM] at hrun₂ ⊢
      rw [List.forM_cons, StateT.run_bind, hrun₁]
      exact hrun₂
    · rw [hwritten₂, hwritten₁, List.flatMap_cons, String.ofList_append, String.ofList_append,
        String.ofList_toList]
      simp only [String.toUTF8_eq_toByteArray, String.toByteArray_append, ByteArray.append_assoc]

theorem Report.exists_run_writeCsv {written : σ → ByteArray}
    {write : String → StateT σ (Except ε) Unit} (h : TakesAll written write) (report : Report)
    (s : σ) : ∃ s', (report.writeCsv write).run s = .ok ((), s') ∧
      written s' = written s ++ report.csv.toUTF8 := by
  rw [csv_eq_ofList]
  exact exists_run_forM h report.csvRecords s

/-- A report is read back as its header and one record for each row, in order; so its text
determines what it reports of the rows. A writer that does not fail is given the bytes of the
text. -/
theorem Report.csv_readBack (report : Report) :
    readCsv report.csv = some (["req", "ucid", "entities", "actors", "actors_explicit",
      "interactions", "pureinteractions", "consecutive"] :: report.rows.map ReportRow.columns) ∧
    (∀ other : Report, other.csv = report.csv →
      other.rows.map ReportRow.reported = report.rows.map ReportRow.reported) ∧
    ∀ (written : σ → ByteArray) (write : String → StateT σ (Except ε) Unit),
      TakesAll written write → ∀ s, ∃ s', (report.writeCsv write).run s = .ok ((), s') ∧
        written s' = written s ++ report.csv.toUTF8 := by
  refine ⟨readCsv_report report, ?_, ?_⟩
  · intro other h
    have hread := readCsv_report other
    rw [h, readCsv_report, Option.some.injEq, List.cons.injEq] at hread
    exact map_reported_eq hread.2.symm
  · intro written write hwrite s
    exact exists_run_writeCsv hwrite report s

/-- A row whose key holds everything that separates fields and records. -/
def awkwardReport (explicit : Nat) : Report where
  rows := [⟨⟨"a,\"b\"\r\n", ""⟩, ⟨3, 2, explicit, 1, 10, 4, 0⟩⟩]

def appendBytes (text : String) : StateT ByteArray (Except String) Unit :=
  fun out => .ok ((), out ++ text.toUTF8)

theorem Report.csv_readBack_awkwardReport :
    readCsv (awkwardReport 0).csv =
      some [["req", "ucid", "entities", "actors", "actors_explicit", "interactions",
        "pureinteractions", "consecutive"], ["a,\"b\"\r\n", "", "3", "2", "1", "10", "4", "0"]] ∧
    (awkwardReport 5).csv = (awkwardReport 0).csv ∧
    (awkwardReport 5).rows.map ReportRow.reported =
      (awkwardReport 0).rows.map ReportRow.reported ∧
    TakesAll id appendBytes ∧
    ∃ out, ((awkwardReport 0).writeCsv appendBytes).run ByteArray.empty = .ok ((), out) ∧
      out = ByteArray.empty ++ (awkwardReport 0).csv.toUTF8 := by
  have htext : (awkwardReport 5).csv = (awkwardReport 0).csv := rfl
  have hwriter : TakesAll id appendBytes := fun text out => ⟨out ++ text.toUTF8, rfl, rfl⟩
  have hread := csv_readBack (σ := ByteArray) (ε := String) (awkwardReport 0)
  exact ⟨hread.1, htext, hread.2.1 _ htext, hwriter, hread.2.2 id appendBytes hwriter _⟩

end Writing

end UseCaseFlow
