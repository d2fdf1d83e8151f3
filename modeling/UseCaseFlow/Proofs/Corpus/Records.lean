import Mathlib.Data.String.Basic
import UseCaseFlow.Proofs.Corpus.Listing
import UseCaseFlow.Proofs.Sorting

/-!
# Entries of a corpus

A corpus holds one entry for each of its files, in the order of the files, and files are listed by
key.
-/

namespace UseCaseFlow

section Order

/-- By requirement, and by use case within a requirement. -/
def ScenarioKey.NotAfter (a b : ScenarioKey) : Prop :=
  a.req < b.req ∨ a.req = b.req ∧ a.ucid ≤ b.ucid

theorem ScenarioKey.isLE_order_iff {a b : ScenarioKey} :
    (a.order b).isLE = true ↔ a.NotAfter b := by
  have hucid : (compare a.ucid b.ucid).isLE = true ↔ a.ucid ≤ b.ucid := Std.LawfulBCmp.isLE_iff_le
  rw [order, Ordering.isLE_then_iff_or, compare_lt_iff_lt, compare_eq_iff_eq, hucid, NotAfter]

theorem ScenarioFile.key_notAfter {a b : ScenarioFile} (h : a.notAfter b = true) :
    a.key.NotAfter b.key := by
  rw [notAfter, order, Ordering.isLE_then_iff_or] at h
  rw [← ScenarioKey.isLE_order_iff]
  rcases h with h | ⟨h, -⟩
  · rw [h]
    rfl
  · rw [h]
    rfl

instance : Std.TransCmp ScenarioFile.order :=
  inferInstanceAs (Std.TransCmp (compareLex
    (compareLex (compareOn fun file : ScenarioFile => file.key.req)
      (compareOn fun file => file.key.ucid))
    (compareOn ScenarioFile.path)))

theorem pairwise_key_of_discover {tree : FileTree} {root extension : String}
    {files : List ScenarioFile} (h : discover tree root extension = .ok files) :
    files.Pairwise fun a b => a.key.NotAfter b.key := by
  rw [discover] at h
  split at h
  · obtain rfl := Except.ok.inj h
    exact (pairwise_mergeSort_isLE _).imp ScenarioFile.key_notAfter
  · contradiction

end Order

section Entries

def outcomeOf (settings : LoadSettings) (tree : FileTree) (file : ScenarioFile) :
    Except LoadError Scenario :=
  loadFile settings tree file.key file.path

/-- Each file has one entry: its scenario if it was loaded, and otherwise its key and the error. -/
structure Corpus.Records (c : Corpus) (outcome : ScenarioFile → Except LoadError Scenario)
    (files : List ScenarioFile) : Prop where
  scenarios : List.Forall₂ (fun file s => outcome file = .ok s ∧ s.key = file.key)
    (files.filter fun file => (outcome file).isOk) c.scenarios
  failures : List.Forall₂ (fun file failure => outcome file = .error failure.2 ∧
      failure.1 = file.key)
    (files.filter fun file => !(outcome file).isOk) c.failures

def Corpus.append (c d : Corpus) : Corpus :=
  ⟨c.scenarios ++ d.scenarios, c.failures ++ d.failures⟩

def Corpus.ofFiles (outcome : ScenarioFile → Except LoadError Scenario)
    (files : List ScenarioFile) : Corpus :=
  files.foldr (fun file => Corpus.add file.key (outcome file)) ⟨[], []⟩

variable {outcome outcome' : ScenarioFile → Except LoadError Scenario} {files : List ScenarioFile}

theorem Corpus.ofFiles_cons (file : ScenarioFile) (files : List ScenarioFile) :
    Corpus.ofFiles outcome (file :: files) =
      Corpus.add file.key (outcome file) (Corpus.ofFiles outcome files) :=
  rfl

theorem Corpus.ofFiles_append (front back : List ScenarioFile) :
    Corpus.ofFiles outcome (front ++ back) =
      (Corpus.ofFiles outcome front).append (Corpus.ofFiles outcome back) := by
  induction front with
  | nil => rfl
  | cons file front ih =>
    rw [List.cons_append, ofFiles_cons, ofFiles_cons, ih]
    cases outcome file with
    | ok scenario => rfl
    | error e => rfl

theorem Corpus.ofFiles_congr (h : ∀ file ∈ files, outcome' file = outcome file) :
    Corpus.ofFiles outcome' files = Corpus.ofFiles outcome files := by
  induction files with
  | nil => rfl
  | cons file files ih =>
    rw [List.forall_mem_cons] at h
    rw [ofFiles_cons, ofFiles_cons, h.1, ih h.2]

theorem Corpus.records_ofFiles (hkey : ∀ file s, outcome file = .ok s → s.key = file.key)
    (files : List ScenarioFile) : (Corpus.ofFiles outcome files).Records outcome files := by
  induction files with
  | nil => exact ⟨.nil, .nil⟩
  | cons file files ih =>
    rw [ofFiles_cons]
    cases h : outcome file with
    | ok s =>
      refine ⟨?_, ?_⟩
      · rw [List.filter_cons_of_pos (by simp [h, Except.isOk, Except.toBool])]
        exact .cons ⟨h, hkey file s h⟩ ih.scenarios
      · rw [List.filter_cons_of_neg (by simp [h, Except.isOk, Except.toBool])]
        exact ih.failures
    | error e =>
      refine ⟨?_, ?_⟩
      · rw [List.filter_cons_of_neg (by simp [h, Except.isOk, Except.toBool])]
        exact ih.scenarios
      · rw [List.filter_cons_of_pos (by simp [h, Except.isOk, Except.toBool])]
        exact .cons ⟨h, rfl⟩ ih.failures

private theorem map_eq_of_forall₂ {α β γ : Type} {R : α → β → Prop} {f : α → γ} {g : β → γ}
    {left : List α} {right : List β} (h : List.Forall₂ R left right)
    (hsame : ∀ a b, R a b → g b = f a) : right.map g = left.map f := by
  induction h with
  | nil => rfl
  | cons hhead _ ih => rw [List.map_cons, List.map_cons, hsame _ _ hhead, ih]

theorem Corpus.Records.map_key {c : Corpus} (h : c.Records outcome files) :
    c.scenarios.map (·.key) = (files.filter fun file => (outcome file).isOk).map (·.key) :=
  map_eq_of_forall₂ h.scenarios fun _ _ h => h.2

theorem Corpus.Records.map_fst {c : Corpus} (h : c.Records outcome files) :
    c.failures.map (·.1) = (files.filter fun file => !(outcome file).isOk).map (·.key) :=
  map_eq_of_forall₂ h.failures fun _ _ h => h.2

theorem Corpus.Records.pairwise {c : Corpus} (h : c.Records outcome files)
    (hfiles : files.Pairwise fun a b => a.key.NotAfter b.key) :
    (c.scenarios.map (·.key)).Pairwise ScenarioKey.NotAfter ∧
      (c.failures.map (·.1)).Pairwise ScenarioKey.NotAfter := by
  rw [h.map_key, h.map_fst, List.pairwise_map, List.pairwise_map]
  exact ⟨hfiles.filter _, hfiles.filter _⟩

end Entries

end UseCaseFlow
