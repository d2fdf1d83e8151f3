import UseCaseFlow.Proofs.Corpus.Listing

/-!
# Looking a scenario up by its key

The file of a key is the one that is named after the use case and has no dot but the one before the
extension. It is read with the same outcome as in the whole corpus. Other files with this key are
listed too, but looking the key up does not find them.
-/

namespace UseCaseFlow

/-- Where the scenario of a key is looked for. -/
def ScenarioKey.path (key : ScenarioKey) (root extension : String) : String :=
  joinPath (joinPath root key.req) (key.ucid ++ "." ++ extension)

section Definition

variable {settings : LoadSettings} {tree : FileTree} {root : String} {key : ScenarioKey}

theorem loadScenario_of_hasFile (h : tree.hasFile (key.path root settings.extension) = true) :
    loadScenario settings tree root key.req key.ucid =
      loadFile settings tree key (key.path root settings.extension) :=
  if_pos h

theorem loadScenario_of_not_hasFile
    (h : ¬ tree.hasFile (key.path root settings.extension) = true) :
    loadScenario settings tree root key.req key.ucid =
      .error (.notFound (key.path root settings.extension)) :=
  if_neg h

end Definition

section Names

variable {name extension : String}

theorem not_mem_lookupName {c : Char} (hextension : fileExtension? name = some extension)
    (h : c ∉ name.toList) : c ∉ (fileStem name ++ "." ++ extension).toList := by
  obtain ⟨front, -, hname, -⟩ := fileExtension?_eq_some_iff.mp hextension
  have hstem : c ∉ (fileStem name).toList := fun hc => h (toList_fileStem_subset name hc)
  rw [hname] at h
  simp only [String.toList_append, List.mem_append, not_or] at h ⊢
  exact ⟨⟨hstem, h.1.2⟩, h.2⟩

theorem lookupName_ne_dots (hextension : fileExtension? name = some extension) :
    fileStem name ++ "." ++ extension ≠ ".." := by
  obtain ⟨-, -, -, hdot⟩ := fileExtension?_eq_some_iff.mp hextension
  intro h
  have hcount : (fileStem name ++ "." ++ extension).toList.count '.' = 1 := by
    simp [List.count_eq_zero.mpr hdot, List.count_eq_zero.mpr (dot_not_mem_fileStem name)]
  rw [h] at hcount
  contradiction

end Names

section Lookup

variable {tree : FileTree} {root extension name : String} {entries siblings : Entries}
  {file : ScenarioFile} {content : ByteArray}

/-- Looking up the key of a listed file finds a file exactly if one of the siblings has the name
that is looked for. -/
theorem ScenarioFile.ListedAs.hasFile_iff
    (h : file.ListedAs root extension entries siblings name content) (hwell : tree.WellFormed)
    (hroot : tree.locate root = .ok (.directory entries)) :
    tree.hasFile (file.key.path root extension) = true ↔
      ∃ other, (file.key.ucid ++ "." ++ extension, .file other) ∈ siblings := by
  have hentries : (FileTree.directory entries).WellFormed := hwell.of_locate hroot
  have hsiblings : (FileTree.directory siblings).WellFormed := hentries.of_mem h.directory
  have hlocate : tree.locate (joinPath root file.key.req) = .ok (.directory siblings) :=
    (FileTree.locate_joinPath_eq_ok_iff hroot hentries (hentries.legalName h.directory)).mpr
      h.directory
  have hname : LegalName name := hsiblings.legalName h.entry
  rw [ScenarioKey.path, h.ucid]
  exact FileTree.hasFile_joinPath_iff hlocate hsiblings
    (not_mem_lookupName h.extension hname.no_slash) (not_mem_lookupName h.extension hname.no_nul)
    (lookupName_ne_dots h.extension)

theorem ScenarioFile.ListedAs.name_eq
    (h : file.ListedAs root extension entries siblings name content)
    (hone : name.toList.count '.' = 1) : name = file.key.ucid ++ "." ++ extension := by
  rw [h.ucid]
  exact eq_fileStem_append h.extension hone

/-- What looking up the key of a listed file gives. The file itself is found if its name has one dot.
Otherwise its sibling is found that is named after the use case, which need not exist. -/
structure ScenarioFile.LookedUp (file : ScenarioFile) (settings : LoadSettings) (tree : FileTree)
    (root : String) (siblings : Entries) (name : String) : Prop where
  itself (hone : name.toList.count '.' = 1) :
    loadScenario settings tree root file.key.req file.key.ucid =
      loadFile settings tree file.key file.path
  sibling (hmore : 1 < name.toList.count '.')
    (hother : ∃ other, (file.key.ucid ++ "." ++ settings.extension, .file other) ∈ siblings) :
    loadScenario settings tree root file.key.req file.key.ucid =
      loadFile settings tree file.key (file.key.path root settings.extension)
  missing (hmore : 1 < name.toList.count '.')
    (hnone : ∀ other, (file.key.ucid ++ "." ++ settings.extension, .file other) ∉ siblings) :
    loadScenario settings tree root file.key.req file.key.ucid =
      .error (.notFound (file.key.path root settings.extension))

theorem ScenarioFile.ListedAs.lookedUp {settings : LoadSettings}
    (h : file.ListedAs root settings.extension entries siblings name content)
    (hwell : tree.WellFormed) (hroot : tree.locate root = .ok (.directory entries)) :
    file.LookedUp settings tree root siblings name where
  itself hone := by
    have hname := h.name_eq hone
    have hpath : file.path = file.key.path root settings.extension := by
      rw [h.path, hname]
      rfl
    rw [hpath]
    exact loadScenario_of_hasFile ((h.hasFile_iff hwell hroot).mpr ⟨content, hname ▸ h.entry⟩)
  sibling _ hother := loadScenario_of_hasFile ((h.hasFile_iff hwell hroot).mpr hother)
  missing _ hnone := by
    apply loadScenario_of_not_hasFile
    intro hfile
    obtain ⟨other, hother⟩ := (h.hasFile_iff hwell hroot).mp hfile
    exact hnone other hother

end Lookup

/-- Every listed file leaves its outcome in the corpus, under its key, and looking up the key gives
the same outcome unless the file's name has a dot before the one of the extension. -/
theorem loadScenario_of_listed {tree : FileTree} (hwell : tree.WellFormed) {root : String}
    {entries : Entries} (hroot : tree.locate root = .ok (.directory entries))
    (settings : LoadSettings) :
    ∃ files, discover tree root settings.extension = .ok files ∧
      (∀ file, file ∈ files ↔ ∃ siblings name content,
        file.ListedAs root settings.extension entries siblings name content) ∧
      loadCorpus settings tree root =
        .ok ⟨files.filterMap fun file => (loadFile settings tree file.key file.path).toOption,
          files.filterMap fun file =>
            failure? file.key (loadFile settings tree file.key file.path)⟩ ∧
      ∀ (file : ScenarioFile) siblings name content,
        file.ListedAs root settings.extension entries siblings name content →
          (∀ s, loadFile settings tree file.key file.path = .ok s → s.key = file.key) ∧
          file.LookedUp settings tree root siblings name := by
  obtain ⟨files, hfiles, hmem⟩ := exists_discover hroot settings.extension
  refine ⟨files, hfiles, hmem, loadCorpus_of_discover hfiles, ?_⟩
  intro file siblings name content h
  exact ⟨fun s => key_of_loadFile, h.lookedUp hwell hroot⟩

section OneScenario

/-- The entries of a root with one scenario, in a file of the given name. -/
def oneScenario (name : String) : Entries :=
  [("README.md", .file "scenarios".toUTF8),
    ("REQ-0001", .directory [("notes.txt", .file "not a scenario".toUTF8),
      (name, .file "actor a AS A\n".toUTF8)])]

def oneCorpus (name : String) : FileTree :=
  .directory [("corpus", .directory (oneScenario name))]

def declaredOnly : Scenario where
  key := ⟨"REQ-0001", "uc3"⟩
  entities := [⟨"a", "A", .actor, true⟩]
  flow := []

theorem locate_oneCorpus (name : String) :
    (oneCorpus name).locate "corpus" = .ok (.directory (oneScenario name)) :=
  rfl

theorem wellFormed_oneCorpus {name : String} (hlegal : LegalName name) (hnew : name ≠ "notes.txt") :
    (oneCorpus name).WellFormed := by
  have hrequirement : (FileTree.directory [("notes.txt", .file "not a scenario".toUTF8),
      (name, .file "actor a AS A\n".toUTF8)]).WellFormed := by
    apply FileTree.WellFormed.directory
    · simpa using hnew.symm
    · simpa using ⟨by decide, hlegal⟩
    · simp [FileTree.WellFormed.file]
  have hentries : (FileTree.directory (oneScenario name)).WellFormed := by
    apply FileTree.WellFormed.directory
    · show ["README.md", "REQ-0001"].Nodup
      decide
    · have hnames : LegalName "README.md" ∧ LegalName "REQ-0001" := by decide
      simpa [oneScenario] using hnames
    · simpa [oneScenario] using ⟨.file _, hrequirement⟩
  have hname : LegalName "corpus" := by decide
  exact .directory (by simp) (by simpa using hname) (by simpa using hentries)

theorem discover_oneCorpus {name : String} (h : fileExtension? name = some "md") :
    discover (oneCorpus name) "corpus" "md" =
      .ok [⟨⟨"REQ-0001", fileStem name⟩, joinPath "corpus/REQ-0001" name⟩] := by
  have hother : fileExtension? "notes.txt" ≠ some "md" := by decide
  have hbase : joinPath "corpus" "REQ-0001" = "corpus/REQ-0001" := rfl
  rw [discover, locate_oneCorpus]
  simp [oneScenario, requirementFiles, scenarioFile?, FileTree.isFile, h, hother, hbase]

/-- The draft is part of the corpus, but its key stands for another file, which is missing. -/
theorem loadScenario_ne_of_draft :
    (oneCorpus "uc3.draft.md").WellFormed ∧
    (oneCorpus "uc3.draft.md").locate "corpus" = .ok (.directory (oneScenario "uc3.draft.md")) ∧
    loadCorpus {} (oneCorpus "uc3.draft.md") "corpus" = .ok ⟨[declaredOnly], []⟩ ∧
    loadScenario {} (oneCorpus "uc3.draft.md") "corpus" declaredOnly.key.req
      declaredOnly.key.ucid = .error (.notFound "corpus/REQ-0001/uc3.md") := by
  have hfiles : discover (oneCorpus "uc3.draft.md") "corpus" "md" =
      .ok [⟨⟨"REQ-0001", "uc3"⟩, "corpus/REQ-0001/uc3.draft.md"⟩] := discover_oneCorpus rfl
  refine ⟨wellFormed_oneCorpus (by decide) (by decide), locate_oneCorpus _, ?_, rfl⟩
  rw [loadCorpus_of_discover hfiles]
  rfl

theorem loadScenario_of_final :
    (oneCorpus "uc3.md").WellFormed ∧
    (oneCorpus "uc3.md").locate "corpus" = .ok (.directory (oneScenario "uc3.md")) ∧
    loadCorpus {} (oneCorpus "uc3.md") "corpus" = .ok ⟨[declaredOnly], []⟩ ∧
    loadScenario {} (oneCorpus "uc3.md") "corpus" declaredOnly.key.req declaredOnly.key.ucid =
      .ok declaredOnly := by
  have hwell : (oneCorpus "uc3.md").WellFormed := wellFormed_oneCorpus (by decide) (by decide)
  have hroot := locate_oneCorpus "uc3.md"
  have hfiles : discover (oneCorpus "uc3.md") "corpus" "md" =
      .ok [⟨⟨"REQ-0001", "uc3"⟩, "corpus/REQ-0001/uc3.md"⟩] := discover_oneCorpus rfl
  obtain ⟨files, hlisted, -, hcorpus, hlookup⟩ := loadScenario_of_listed hwell hroot {}
  obtain rfl := Except.ok.inj (hlisted.symm.trans hfiles)
  have hfile : ScenarioFile.ListedAs ⟨⟨"REQ-0001", "uc3"⟩, "corpus/REQ-0001/uc3.md"⟩ "corpus" "md"
      (oneScenario "uc3.md") [("notes.txt", .file "not a scenario".toUTF8),
        ("uc3.md", .file "actor a AS A\n".toUTF8)] "uc3.md" "actor a AS A\n".toUTF8 :=
    ⟨by simp [oneScenario], by simp, rfl, rfl, rfl⟩
  refine ⟨hwell, hroot, hcorpus, ?_⟩
  exact (hlookup _ _ _ _ hfile).2.itself rfl

end OneScenario

end UseCaseFlow
