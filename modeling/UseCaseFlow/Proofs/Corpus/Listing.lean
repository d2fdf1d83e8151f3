import UseCaseFlow.Corpus.Load
import UseCaseFlow.Proofs.Corpus.FileTree
import UseCaseFlow.Proofs.Scenario.Parse

/-!
# Listed files

A scenario file is an entry of a directory for a requirement, which is itself an entry of the root.
The corpus keeps one outcome for each file that is listed.
-/

namespace UseCaseFlow

/-- The file is the entry `name` among the `siblings` in the directory for its requirement, and has
the extension. -/
structure ScenarioFile.ListedAs (file : ScenarioFile) (root extension : String)
    (entries siblings : Entries) (name : String) (content : ByteArray) : Prop where
  directory : (file.key.req, .directory siblings) ∈ entries
  entry : (name, .file content) ∈ siblings
  extension : fileExtension? name = some extension
  ucid : file.key.ucid = fileStem name
  path : file.path = joinPath (joinPath root file.key.req) name

section Discovery

variable {tree : FileTree} {root extension req : String} {entries siblings : Entries}
  {entry : String × FileTree} {file : ScenarioFile}

theorem scenarioFile?_eq_some_iff :
    scenarioFile? root extension req entry = some file ↔
      (∃ content, entry.2 = .file content) ∧ fileExtension? entry.1 = some extension ∧
        file = ⟨⟨req, fileStem entry.1⟩, joinPath (joinPath root req) entry.1⟩ := by
  obtain ⟨name, child⟩ := entry
  rw [scenarioFile?]
  cases child with
  | directory entries => simp [FileTree.isFile]
  | file content => simp [FileTree.isFile, eq_comm (a := file)]

theorem mem_requirementFiles_iff :
    file ∈ requirementFiles root extension entry ↔ ∃ siblings, entry.2 = .directory siblings ∧
      ∃ sibling ∈ siblings, scenarioFile? root extension entry.1 sibling = some file := by
  obtain ⟨req, child⟩ := entry
  cases child with
  | file content => simp [requirementFiles]
  | directory siblings => simp [requirementFiles]

/-- The files that are listed are the entries, two levels below the root, with the extension. -/
theorem exists_discover (hroot : tree.locate root = .ok (.directory entries))
    (extension : String) : ∃ files, discover tree root extension = .ok files ∧
      ∀ file, file ∈ files ↔ ∃ siblings name content,
        file.ListedAs root extension entries siblings name content := by
  rw [discover, hroot]
  refine ⟨_, rfl, ?_⟩
  intro file
  rw [List.mem_mergeSort, List.mem_flatMap]
  constructor
  · rintro ⟨⟨req, child⟩, hentry, hfile⟩
    obtain ⟨siblings, hchild, ⟨name, sibling⟩, hsibling, hfile⟩ := mem_requirementFiles_iff.mp hfile
    obtain ⟨⟨content, hcontent⟩, hextension, rfl⟩ := scenarioFile?_eq_some_iff.mp hfile
    dsimp only at hchild hcontent hextension
    subst hchild hcontent
    exact ⟨siblings, name, content, hentry, hsibling, hextension, rfl, rfl⟩
  · rintro ⟨siblings, name, content, h⟩
    refine ⟨_, h.directory, mem_requirementFiles_iff.mpr ⟨siblings, rfl, _, h.entry, ?_⟩⟩
    apply scenarioFile?_eq_some_iff.mpr
    refine ⟨⟨content, rfl⟩, h.extension, ?_⟩
    obtain ⟨⟨req, ucid⟩, path⟩ := file
    simp [← h.ucid, ← h.path]

end Discovery

section Outcomes

def failure? (key : ScenarioKey) : Except LoadError Scenario → Option (ScenarioKey × LoadError)
  | .ok _ => none
  | .error e => some (key, e)

theorem Corpus.foldr_add (outcome : ScenarioFile → Except LoadError Scenario)
    (files : List ScenarioFile) :
    files.foldr (fun file => Corpus.add file.key (outcome file)) ⟨[], []⟩ =
      ⟨files.filterMap fun file => (outcome file).toOption,
        files.filterMap fun file => failure? file.key (outcome file)⟩ := by
  induction files with
  | nil => rfl
  | cons file rest ih =>
    rw [List.foldr_cons, ih]
    cases h : outcome file with
    | ok scenario => simp [Corpus.add, h, Except.toOption, failure?]
    | error e => simp [Corpus.add, h, Except.toOption, failure?]

theorem loadCorpus_of_discover {settings : LoadSettings} {tree : FileTree} {root : String}
    {files : List ScenarioFile} (h : discover tree root settings.extension = .ok files) :
    loadCorpus settings tree root =
      .ok ⟨files.filterMap fun file => (loadFile settings tree file.key file.path).toOption,
        files.filterMap fun file =>
          failure? file.key (loadFile settings tree file.key file.path)⟩ := by
  rw [loadCorpus, h, ok_bind, Corpus.foldr_add]
  rfl

theorem key_of_loadFile {settings : LoadSettings} {tree : FileTree} {key : ScenarioKey}
    {path : String} {scenario : Scenario} (h : loadFile settings tree key path = .ok scenario) :
    scenario.key = key := by
  obtain ⟨text, -, hparse⟩ := bind_eq_ok_iff.mp h
  exact (Scenario.parse_eq_ok_iff.mp hparse).1

end Outcomes

end UseCaseFlow
