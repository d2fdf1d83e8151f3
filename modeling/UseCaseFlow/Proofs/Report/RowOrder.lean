import UseCaseFlow.Proofs.Corpus.Isolation
import UseCaseFlow.Proofs.Text.ByteOrder
import UseCaseFlow.Report.Csv
import UseCaseFlow.Report.Json

/-!
# The order of a report

The rows of a report are those of the scenarios, sorted by key, and rows of one key keep the order
in which they were given. No other list of rows is sorted like this, so scenarios with different
keys may be given in any order, and the scenarios of a loaded corpus are in the report's order
already.
-/

namespace UseCaseFlow

open Text

section Order

variable {a b : ScenarioKey}

/-- By requirement, and by use case within a requirement, where texts are compared by bytes. -/
def ScenarioKey.BytesNotAfter (a b : ScenarioKey) : Prop :=
  utf8Bytes a.req < utf8Bytes b.req ∨ a.req = b.req ∧ utf8Bytes a.ucid ≤ utf8Bytes b.ucid

theorem ScenarioKey.bytesNotAfter_iff : a.BytesNotAfter b ↔ a.NotAfter b := by
  rw [BytesNotAfter, utf8Bytes_lt_iff, utf8Bytes_le_iff, NotAfter]

theorem ScenarioKey.eq_of_order_eq (h : a.order b = .eq) : a = b := by
  rw [order, Ordering.then_eq_eq, compare_eq_iff_eq, compare_eq_iff_eq] at h
  cases a
  cases b
  exact congrArg₂ ScenarioKey.mk h.1 h.2

instance : Std.TransCmp ScenarioKey.order :=
  inferInstanceAs (Std.TransCmp (compareLex (compareOn ScenarioKey.req)
    (compareOn ScenarioKey.ucid)))

theorem ScenarioKey.NotAfter.antisymm (h : a.NotAfter b) (h' : b.NotAfter a) : a = b := by
  rw [← isLE_order_iff] at h h'
  exact eq_of_order_eq (Std.OrientedCmp.isLE_antisymm h h')

instance : Std.TransCmp fun row later : ReportRow => row.key.order later.key :=
  inferInstanceAs (Std.TransCmp (compareLex (compareOn fun row : ReportRow => row.key.req)
    (compareOn fun row => row.key.ucid)))

theorem ReportRow.notAfter_iff {row other : ReportRow} :
    row.notAfter other = true ↔ row.key.NotAfter other.key :=
  ScenarioKey.isLE_order_iff

end Order

section Sorting

/-- The rows are those of the input in ascending order. -/
structure StableSort (rows input : List ReportRow) : Prop where
  perm : rows.Perm input
  ascending : rows.Pairwise fun row later => row.key.BytesNotAfter later.key
  /-- Rows of one key come in the order in which they were given. -/
  stable (key : ScenarioKey) :
    (rows.filter fun row => row.key = key) = input.filter fun row => row.key = key

variable {rows rows' input : List ReportRow}

/-- Rows of one key are sorted already, so sorting all rows leaves them in their order. -/
theorem filter_mergeSort_notAfter (input : List ReportRow) (key : ScenarioKey) :
    ((input.mergeSort ReportRow.notAfter).filter fun row => row.key = key) =
      input.filter fun row => row.key = key := by
  have hsame : (input.filter fun row => row.key = key).Pairwise
      fun row later => row.notAfter later = true := by
    apply List.pairwise_of_forall_mem_list
    intro row hrow later hlater
    simp only [List.mem_filter, decide_eq_true_eq] at hrow hlater
    rw [ReportRow.notAfter_iff, hrow.2, hlater.2]
    exact Or.inr ⟨rfl, le_refl _⟩
  have hsublist : (input.filter fun row => row.key = key).Sublist
      (input.mergeSort ReportRow.notAfter) :=
    List.sublist_mergeSort (fun _ _ _ => Std.TransCmp.isLE_trans) isLE_total hsame
      List.filter_sublist
  have hfiltered := hsublist.filter fun row => row.key = key
  rw [List.filter_filter] at hfiltered
  simp only [Bool.and_self] at hfiltered
  have hlength := ((List.mergeSort_perm input ReportRow.notAfter).filter
    fun row => row.key = key).length_eq
  exact (hfiltered.eq_of_length hlength.symm).symm

theorem stableSort_mergeSort (input : List ReportRow) :
    StableSort (input.mergeSort ReportRow.notAfter) input := by
  refine ⟨List.mergeSort_perm input _, ?_, filter_mergeSort_notAfter input⟩
  apply (pairwise_mergeSort_isLE input).imp
  intro row later h
  exact ScenarioKey.bytesNotAfter_iff.mpr (ReportRow.notAfter_iff.mp h)

private theorem mem_iff_of_filter_key_eq (h : ∀ key : ScenarioKey,
      (rows.filter fun row => row.key = key) = rows'.filter fun row => row.key = key)
    (row : ReportRow) : row ∈ rows ↔ row ∈ rows' := by
  have hmem := congrArg (row ∈ ·) (h row.key)
  simpa using hmem

theorem eq_of_filter_key_eq (hrows : rows.Pairwise fun row later => row.key.NotAfter later.key)
    (hrows' : rows'.Pairwise fun row later => row.key.NotAfter later.key)
    (h : ∀ key : ScenarioKey, (rows.filter fun row => row.key = key) =
      rows'.filter fun row => row.key = key) : rows = rows' := by
  have hmem := mem_iff_of_filter_key_eq h
  induction rows generalizing rows' with
  | nil =>
    cases rows' with
    | nil => rfl
    | cons row' rows' => simpa using hmem row'
  | cons row rows ih =>
    cases rows' with
    | nil => simpa using hmem row
    | cons row' rows' =>
      rw [List.pairwise_cons] at hrows hrows'
      -- Each head occurs in the other list, and so it is not before the other head.
      have hkey : row.key = row'.key := by
        rcases List.mem_cons.mp ((hmem row).mp List.mem_cons_self) with heq | hin
        · rw [heq]
        rcases List.mem_cons.mp ((hmem row').mpr List.mem_cons_self) with heq | hin'
        · rw [heq]
        · exact (hrows.1 row' hin').antisymm (hrows'.1 row hin)
      have hfirst := h row.key
      simp only [List.filter_cons, hkey, decide_true, if_true, List.cons.injEq] at hfirst
      obtain ⟨rfl, -⟩ := hfirst
      have hrest (key : ScenarioKey) : (rows.filter fun row => row.key = key) =
          rows'.filter fun row => row.key = key := by
        have hboth := h key
        by_cases hown : row.key = key
        · simpa [List.filter_cons, hown] using hboth
        · simpa [List.filter_cons, hown] using hboth
      rw [ih hrows.2 hrows'.2 hrest (mem_iff_of_filter_key_eq hrest)]

theorem StableSort.unique (h : StableSort rows input) (h' : StableSort rows' input) :
    rows = rows' := by
  apply eq_of_filter_key_eq
  · exact h.ascending.imp ScenarioKey.bytesNotAfter_iff.mp
  · exact h'.ascending.imp ScenarioKey.bytesNotAfter_iff.mp
  · intro key
    rw [h.stable, h'.stable]

end Sorting

section Report

variable {scenarios scenarios' : List Scenario}

theorem Report.ofScenarios_eq_of_perm (h : scenarios.Perm scenarios')
    (hdistinct : (scenarios.map (·.key)).Nodup) :
    ofScenarios scenarios = ofScenarios scenarios' := by
  have hkeys : ((scenarios.map Scenario.row).map (·.key)).Nodup := by
    rw [List.map_map]
    exact hdistinct
  rw [Report.mk.injEq]
  apply mergeSort_isLE_eq_of_perm (h.map _)
  intro row hrow other hother horder
  exact List.inj_on_of_nodup_map hkeys hrow hother (ScenarioKey.eq_of_order_eq horder)

theorem Report.rows_ofScenarios_of_pairwise
    (h : (scenarios.map (·.key)).Pairwise ScenarioKey.NotAfter) :
    (ofScenarios scenarios).rows = scenarios.map Scenario.row := by
  apply List.mergeSort_of_pairwise
  rw [List.pairwise_map] at h ⊢
  exact h.imp ReportRow.notAfter_iff.mpr

theorem pairwise_key_of_loadCorpus {settings : LoadSettings} {tree : FileTree} {root : String}
    {corpus : Corpus} (h : loadCorpus settings tree root = .ok corpus) :
    (corpus.scenarios.map (·.key)).Pairwise ScenarioKey.NotAfter := by
  obtain ⟨files, hfiles, hcorpus⟩ := bind_eq_ok_iff.mp h
  obtain rfl := Except.ok.inj hcorpus
  have hrecords : (Corpus.ofFiles (outcomeOf settings tree) files).Records
      (outcomeOf settings tree) files :=
    Corpus.records_ofFiles (fun file s => key_of_loadFile) files
  exact (hrecords.pairwise (pairwise_key_of_discover hfiles)).1

/-- The rows of a report are the one stable sort of the rows of its scenarios. So the order in which
scenarios with different keys are given does not matter, and the scenarios of a corpus keep the
order that they have. -/
theorem Report.rows_stableSort :
    (∀ (scenarios : List Scenario) (rows : List ReportRow),
      rows = (ofScenarios scenarios).rows ↔
        StableSort rows (scenarios.map fun s => ⟨s.key, s.metrics⟩)) ∧
    (∀ scenarios scenarios' : List Scenario, scenarios.Perm scenarios' →
      (scenarios.map (·.key)).Nodup → ofScenarios scenarios = ofScenarios scenarios' ∧
        (ofScenarios scenarios).csv = (ofScenarios scenarios').csv ∧
        (ofScenarios scenarios).json = (ofScenarios scenarios').json) ∧
    ∀ (settings : LoadSettings) (tree : FileTree) (root : String) (corpus : Corpus),
      loadCorpus settings tree root = .ok corpus →
      (ofScenarios corpus.scenarios).rows = corpus.scenarios.map fun s => ⟨s.key, s.metrics⟩ := by
  refine ⟨fun scenarios rows => ?_, ?_, ?_⟩
  · have hsorted := stableSort_mergeSort (scenarios.map Scenario.row)
    constructor
    · rintro rfl
      exact hsorted
    · exact fun h => h.unique hsorted
  · intro scenarios scenarios' hperm hdistinct
    have hsame := ofScenarios_eq_of_perm hperm hdistinct
    exact ⟨hsame, congrArg csv hsame, congrArg json hsame⟩
  · intro settings tree root corpus h
    exact rows_ofScenarios_of_pairwise (pairwise_key_of_loadCorpus h)

def declaredScenario (req ucid id : String) : Scenario :=
  ⟨⟨req, ucid⟩, [⟨id, "N", .actor, true⟩], []⟩

def loadedScenarios : List Scenario :=
  [⟨⟨"REQ-0001", "uc1"⟩, [⟨"a", "A", .actor, true⟩], []⟩,
    ⟨⟨"REQ-0001", "uc2"⟩, [⟨"b", "B", .participant, false⟩], []⟩]

theorem Report.rows_stableSort_of_exchange :
    StableSort (ofScenarios [declaredScenario "REQ-1" "uc2" "b",
        declaredScenario "REQ-10" "uc1" "c", declaredScenario "REQ-1" "uc2" "a"]).rows
      [⟨⟨"REQ-1", "uc2"⟩, (declaredScenario "REQ-1" "uc2" "b").metrics⟩,
        ⟨⟨"REQ-10", "uc1"⟩, (declaredScenario "REQ-10" "uc1" "c").metrics⟩,
        ⟨⟨"REQ-1", "uc2"⟩, (declaredScenario "REQ-1" "uc2" "a").metrics⟩] ∧
    loadedScenarios.Perm loadedScenarios.reverse ∧ (loadedScenarios.map (·.key)).Nodup ∧
    ofScenarios loadedScenarios = ofScenarios loadedScenarios.reverse ∧
    loadCorpus {} (twoCorpus "participant b AS (B)\n".toUTF8) "corpus" = .ok ⟨loadedScenarios, []⟩ ∧
    (ofScenarios loadedScenarios).rows = loadedScenarios.map fun s => ⟨s.key, s.metrics⟩ := by
  have hperm : loadedScenarios.Perm loadedScenarios.reverse := (List.reverse_perm _).symm
  have hdistinct : (loadedScenarios.map (·.key)).Nodup := by decide
  have hcorpus : loadCorpus {} (twoCorpus "participant b AS (B)\n".toUTF8) "corpus" =
      .ok ⟨loadedScenarios, []⟩ := by
    refine (loadCorpus_eq_ofFiles (discover_twoCorpus _)).trans ?_
    rfl
  exact ⟨(rows_stableSort.1 _ _).mp rfl, hperm, hdistinct,
    (rows_stableSort.2.1 _ _ hperm hdistinct).1, hcorpus, rows_stableSort.2.2 _ _ _ _ hcorpus⟩

end Report

end UseCaseFlow
