import Mathlib.Data.List.Nodup
import UseCaseFlow.Proofs.Corpus.OneFile
import UseCaseFlow.Proofs.Corpus.Records

/-!
# One entry for each listed file

No path is listed twice, and a corpus holds the outcome of every listed file once. What is in one
file has no influence on the entries of the others.
-/

namespace UseCaseFlow

section Listed

variable {tree : FileTree} {root extension req req' name name' : String}
  {entries siblings siblings' : Entries} {content content' : ByteArray} {file file' : ScenarioFile}

theorem pathLocation_twoLevels (hroot : root ≠ "") (hreq : LegalName req) (hname : LegalName name) :
    pathLocation (joinPath (joinPath root req) name) = pathLocation root ++ [req] ++ [name] := by
  rw [pathLocation_joinPath (joinPath_ne_empty hroot hreq.no_slash) hname,
    pathLocation_joinPath hroot hreq]

theorem names_eq_of_pathLocation_eq (hroot : root ≠ "") (hreq : LegalName req)
    (hreq' : LegalName req') (hname : LegalName name) (hname' : LegalName name')
    (h : pathLocation (joinPath (joinPath root req) name) =
      pathLocation (joinPath (joinPath root req') name')) : req = req' ∧ name = name' := by
  rw [pathLocation_twoLevels hroot hreq hname, pathLocation_twoLevels hroot hreq' hname'] at h
  obtain ⟨h, hlast⟩ := List.append_singleton_inj.mp h
  exact ⟨(List.append_singleton_inj.mp h).2, hlast⟩

theorem ScenarioFile.ListedAs.legalNames
    (h : file.ListedAs root extension entries siblings name content)
    (hentries : (FileTree.directory entries).WellFormed) :
    LegalName file.key.req ∧ LegalName name :=
  ⟨hentries.legalName h.directory, (hentries.of_mem h.directory).legalName h.entry⟩

theorem ScenarioFile.ListedAs.locate_path
    (h : file.ListedAs root extension entries siblings name content)
    (hentries : (FileTree.directory entries).WellFormed)
    (hroot : tree.locate root = .ok (.directory entries)) :
    tree.locate file.path = .ok (.file content) := by
  obtain ⟨hreq, hname⟩ := h.legalNames hentries
  have hdirectory : tree.locate (joinPath root file.key.req) = .ok (.directory siblings) :=
    (FileTree.locate_joinPath_eq_ok_iff hroot hentries hreq).mpr h.directory
  rw [h.path]
  exact (FileTree.locate_joinPath_eq_ok_iff hdirectory (hentries.of_mem h.directory) hname).mpr
    h.entry

theorem ScenarioFile.ListedAs.eq_of_pathLocation_eq
    (h : file.ListedAs root extension entries siblings name content)
    (h' : file'.ListedAs root extension entries siblings' name' content')
    (hentries : (FileTree.directory entries).WellFormed) (hroot : root ≠ "")
    (hsame : pathLocation file.path = pathLocation file'.path) : file = file' := by
  obtain ⟨hreq, hname⟩ := h.legalNames hentries
  obtain ⟨hreq', hname'⟩ := h'.legalNames hentries
  rw [h.path, h'.path] at hsame
  obtain ⟨hreqs, rfl⟩ := names_eq_of_pathLocation_eq hroot hreq hreq' hname hname' hsame
  obtain ⟨⟨req, ucid⟩, path⟩ := file
  obtain ⟨⟨req', ucid'⟩, path'⟩ := file'
  obtain rfl : req = req' := hreqs
  obtain rfl : ucid = ucid' := h.ucid.trans h'.ucid.symm
  obtain rfl : path = path' := h.path.trans h'.path.symm
  rfl

theorem FileTree.WellFormed.pairwise_name_ne (h : (FileTree.directory entries).WellFormed) :
    entries.Pairwise fun a b => a.1 ≠ b.1 := by
  cases h with
  | directory distinct _ _ => exact List.pairwise_map.mp distinct

theorem nodup_path_of_discover {files : List ScenarioFile} (hwell : tree.WellFormed)
    (hroot : tree.locate root = .ok (.directory entries))
    (h : discover tree root extension = .ok files) : (files.map (·.path)).Nodup := by
  have hentries := hwell.of_locate hroot
  have hempty := (FileTree.locate_eq_ok_iff.mp hroot).1
  rw [discover, hroot] at h
  obtain rfl := Except.ok.inj h
  have hperm := List.mergeSort_perm (entries.flatMap (requirementFiles root extension))
    ScenarioFile.notAfter
  rw [(hperm.map (·.path)).nodup_iff, List.Nodup, List.pairwise_map, List.pairwise_flatMap]
  constructor
  · -- Two files of one requirement differ in their names.
    rintro ⟨req, child⟩ hmem
    have hreq := hentries.legalName hmem
    cases child with
    | file content => exact List.Pairwise.nil
    | directory siblings =>
      have hsiblings := hentries.of_mem hmem
      rw [requirementFiles, List.pairwise_filterMap]
      refine hsiblings.pairwise_name_ne.imp_of_mem ?_
      intro a b ha hb hne file hfile file' hfile'
      obtain ⟨-, -, rfl⟩ := scenarioFile?_eq_some_iff.mp hfile
      obtain ⟨-, -, rfl⟩ := scenarioFile?_eq_some_iff.mp hfile'
      exact fun hpath => hne (names_eq_of_pathLocation_eq hempty hreq hreq
        (hsiblings.legalName ha) (hsiblings.legalName hb) (congrArg pathLocation hpath)).2
  · refine hentries.pairwise_name_ne.imp_of_mem ?_
    intro a b ha hb hne file hfile file' hfile'
    obtain ⟨siblings, ha', sibling, hsibling, hfile⟩ := mem_requirementFiles_iff.mp hfile
    obtain ⟨siblings', hb', sibling', hsibling', hfile'⟩ := mem_requirementFiles_iff.mp hfile'
    obtain ⟨-, -, rfl⟩ := scenarioFile?_eq_some_iff.mp hfile
    obtain ⟨-, -, rfl⟩ := scenarioFile?_eq_some_iff.mp hfile'
    have ha' : (a.1, FileTree.directory siblings) ∈ entries := ha' ▸ ha
    have hb' : (b.1, FileTree.directory siblings') ∈ entries := hb' ▸ hb
    exact fun hpath => hne (names_eq_of_pathLocation_eq hempty (hentries.legalName ha')
      (hentries.legalName hb') ((hentries.of_mem ha').legalName hsibling)
      ((hentries.of_mem hb').legalName hsibling') (congrArg pathLocation hpath)).1

end Listed

section Change

variable {tree tree' : FileTree} {root : String} {location : List String}
  {entries : Entries} {settings : LoadSettings}

theorem requirementFiles_of_sameBut {extension name : String} {node node' : FileTree}
    (h : FileTree.SameBut location node node') :
    requirementFiles root extension (name, node') = requirementFiles root extension (name, node) := by
  cases h with
  | file content content' => rfl
  | @entry changed location child child' front back h =>
    have hchanged : scenarioFile? root extension name (changed, child') =
        scenarioFile? root extension name (changed, child) := by
      rw [scenarioFile?, scenarioFile?, h.isFile_eq]
    simp only [requirementFiles, List.filterMap_append, List.filterMap_cons, hchanged]

theorem discover_of_sameBut (hroot : tree.locate root = .ok (.directory entries))
    (h : FileTree.SameBut location tree tree') (extension : String) :
    discover tree' root extension = discover tree root extension := by
  obtain ⟨node', hroot', hsame⟩ := h.exists_locate hroot
  rw [discover, discover, hroot, hroot']
  rcases hsame with rfl | ⟨rest, -, hsame⟩
  · rfl
  · cases hsame with
    | @entry name location child child' front back h =>
      simp only [List.flatMap_append, List.flatMap_cons, requirementFiles_of_sameBut h]

theorem outcomeOf_of_locate {file : ScenarioFile} {content : ByteArray}
    (h : tree.locate file.path = .ok (.file content)) :
    (String.fromUTF8? content = none →
      outcomeOf settings tree file = .error (.unreadable .invalidText)) ∧
    ∀ text, String.fromUTF8? content = some text →
      outcomeOf settings tree file = Scenario.parse file.key text settings.nestingLimit := by
  rw [outcomeOf, loadFile, FileTree.readText, h]
  dsimp only
  constructor
  · intro hnone
    rw [hnone]
    rfl
  · intro text hsome
    rw [hsome]
    rfl

theorem outcomeOf_of_sameBut {file : ScenarioFile} {content : ByteArray}
    (hfile : tree.locate file.path = .ok (.file content))
    (h : FileTree.SameBut location tree tree') (hother : pathLocation file.path ≠ location) :
    outcomeOf settings tree' file = outcomeOf settings tree file := by
  obtain ⟨node', hfile', hsame⟩ := h.exists_locate hfile
  rw [hsame.file_eq hother] at hfile'
  rw [outcomeOf, outcomeOf, loadFile, loadFile, FileTree.readText, FileTree.readText, hfile, hfile']

theorem loadCorpus_eq_ofFiles {files : List ScenarioFile}
    (h : discover tree root settings.extension = .ok files) :
    loadCorpus settings tree root = .ok (Corpus.ofFiles (outcomeOf settings tree) files) := by
  rw [loadCorpus, h, ok_bind]
  rfl

/-- A listed file leads to its content, and other listed files do so at other locations. -/
structure FileListing (tree : FileTree) (files : List ScenarioFile) : Prop where
  content : ∀ file ∈ files, ∃ content, tree.locate file.path = .ok (.file content)
  location : ∀ file ∈ files, ∀ other ∈ files,
    pathLocation file.path = pathLocation other.path → file = other
  distinct : (files.map (·.path)).Nodup

theorem exists_fileListing (hwell : tree.WellFormed)
    (hroot : tree.locate root = .ok (.directory entries)) (extension : String) :
    ∃ files, discover tree root extension = .ok files ∧ FileListing tree files := by
  obtain ⟨files, hfiles, hmem⟩ := exists_discover hroot extension
  have hentries := hwell.of_locate hroot
  have hempty := (FileTree.locate_eq_ok_iff.mp hroot).1
  refine ⟨files, hfiles, ?_, ?_, nodup_path_of_discover hwell hroot hfiles⟩
  · intro file hfile
    obtain ⟨siblings, name, content, hlisted⟩ := (hmem file).mp hfile
    exact ⟨content, hlisted.locate_path hentries hroot⟩
  · intro file hfile other hother hsame
    obtain ⟨siblings, name, content, hlisted⟩ := (hmem file).mp hfile
    obtain ⟨siblings', name', content', hlisted'⟩ := (hmem other).mp hother
    exact hlisted.eq_of_pathLocation_eq hlisted' hentries hempty hsame

/-- A change of one listed file keeps the outcomes of those before and behind it. -/
theorem FileListing.outcomeOf_eq {front back : List ScenarioFile} {changed : ScenarioFile}
    (h : FileListing tree (front ++ changed :: back)) (settings : LoadSettings)
    (hsame : FileTree.SameBut (pathLocation changed.path) tree tree') :
    ∀ file ∈ front ++ back, outcomeOf settings tree' file = outcomeOf settings tree file := by
  intro file hfile
  have hdistinct := h.distinct
  rw [List.map_append, List.map_cons, List.nodup_middle, List.nodup_cons,
    ← List.map_append] at hdistinct
  have hmem : file ∈ front ++ changed :: back :=
    List.mem_append.mpr ((List.mem_append.mp hfile).imp_right (List.mem_cons_of_mem _))
  obtain ⟨content, hcontent⟩ := h.content file hmem
  refine outcomeOf_of_sameBut hcontent hsame fun hlocation => ?_
  obtain rfl := h.location file hmem changed (by simp) hlocation
  exact hdistinct.1 (List.mem_map_of_mem hfile)

end Change

/-- The corpus holds all listed files, and no file has an influence on the entries of others. -/
structure LoadsAll (settings : LoadSettings) (tree : FileTree) (root : String)
    (files : List ScenarioFile) (corpus : Corpus) : Prop where
  discovers : discover tree root settings.extension = .ok files
  loads : loadCorpus settings tree root = .ok corpus
  distinct : (files.map (·.path)).Nodup
  records : corpus.Records (outcomeOf settings tree) files
  ascending : (corpus.scenarios.map (·.key)).Pairwise ScenarioKey.NotAfter ∧
    (corpus.failures.map (·.1)).Pairwise ScenarioKey.NotAfter
  /-- A file that is not text is a failure, and any other is parsed. -/
  content (file : ScenarioFile) (h : file ∈ files) : ∃ content,
    tree.locate file.path = .ok (.file content) ∧
    (String.fromUTF8? content = none →
      outcomeOf settings tree file = .error (.unreadable .invalidText)) ∧
    ∀ text, String.fromUTF8? content = some text →
      outcomeOf settings tree file = Scenario.parse file.key text settings.nestingLimit
  /-- Another content of one file leaves the entries of all others as they are. -/
  isolated (changed : ScenarioFile) (h : changed ∈ files) (tree' : FileTree)
    (hsame : FileTree.SameBut (pathLocation changed.path) tree tree') :
    ∃ corpus' front back before after, files = front ++ changed :: back ∧
      discover tree' root settings.extension = .ok files ∧
      loadCorpus settings tree' root = .ok corpus' ∧
      Corpus.Records before (outcomeOf settings tree) front ∧
      Corpus.Records after (outcomeOf settings tree) back ∧
      corpus = before.append (after.add changed.key (outcomeOf settings tree changed)) ∧
      corpus' = before.append (after.add changed.key (outcomeOf settings tree' changed))

/-- Loading a corpus loses nothing, and failures stay with their files. -/
theorem loadsAll {tree : FileTree} (hwell : tree.WellFormed) {root : String} {entries : Entries}
    (hroot : tree.locate root = .ok (.directory entries)) (settings : LoadSettings) :
    ∃ files corpus, LoadsAll settings tree root files corpus := by
  obtain ⟨files, hfiles, hlisting⟩ := exists_fileListing hwell hroot settings.extension
  have hkey : ∀ file s, outcomeOf settings tree file = .ok s → s.key = file.key :=
    fun file s => key_of_loadFile
  have hrecords := Corpus.records_ofFiles hkey
  refine ⟨files, _, hfiles, loadCorpus_eq_ofFiles hfiles, hlisting.distinct, hrecords files,
    (hrecords files).pairwise (pairwise_key_of_discover hfiles), ?_, ?_⟩
  · intro file hfile
    obtain ⟨content, hcontent⟩ := hlisting.content file hfile
    exact ⟨content, hcontent, outcomeOf_of_locate hcontent⟩
  · intro changed hchanged tree' hsame
    have hfiles' := (discover_of_sameBut hroot hsame settings.extension).trans hfiles
    obtain ⟨front, back, rfl⟩ := List.append_of_mem hchanged
    have hothers := hlisting.outcomeOf_eq settings hsame
    rw [List.forall_mem_append] at hothers
    refine ⟨_, front, back, _, _, rfl, hfiles', loadCorpus_eq_ofFiles hfiles', hrecords front,
      hrecords back, ?_, ?_⟩
    · rw [Corpus.ofFiles_append, Corpus.ofFiles_cons]
    · rw [Corpus.ofFiles_append, Corpus.ofFiles_cons, Corpus.ofFiles_congr hothers.1,
        Corpus.ofFiles_congr hothers.2]

section BrokenText

/-- A corpus of two scenarios, of which the second is in a file with the given content. -/
def twoScenarios (second : ByteArray) : Entries :=
  [("REQ-0001", .directory [("uc1.md", .file "actor a AS A\n".toUTF8), ("uc2.md", .file second)])]

def twoCorpus (second : ByteArray) : FileTree :=
  .directory [("corpus", .directory (twoScenarios second))]

theorem wellFormed_twoCorpus (second : ByteArray) : (twoCorpus second).WellFormed := by
  have hnames : LegalName "uc1.md" ∧ LegalName "uc2.md" ∧ LegalName "REQ-0001" ∧
    LegalName "corpus" := by decide
  obtain ⟨huc1, huc2, hreq, hcorpus⟩ := hnames
  have hrequirement : (FileTree.directory [("uc1.md", .file "actor a AS A\n".toUTF8),
      ("uc2.md", .file second)]).WellFormed := by
    refine .directory ?_ (by simpa using ⟨huc1, huc2⟩) (by simp [FileTree.WellFormed.file])
    show ["uc1.md", "uc2.md"].Nodup
    decide
  have hentries : (FileTree.directory (twoScenarios second)).WellFormed :=
    .directory (by simp [twoScenarios]) (by simpa [twoScenarios] using hreq)
      (by simpa [twoScenarios] using hrequirement)
  exact .directory (by simp) (by simpa using hcorpus) (by simpa using hentries)

/-- The two files in the order of their keys. -/
def twoFiles : List ScenarioFile :=
  [⟨⟨"REQ-0001", "uc1"⟩, "corpus/REQ-0001/uc1.md"⟩, ⟨⟨"REQ-0001", "uc2"⟩, "corpus/REQ-0001/uc2.md"⟩]

theorem discover_twoCorpus (second : ByteArray) :
    discover (twoCorpus second) "corpus" "md" = .ok twoFiles := by
  have hlocate : (twoCorpus second).locate "corpus" = .ok (.directory (twoScenarios second)) := rfl
  have hsorted : twoFiles.Pairwise fun a b => a.notAfter b = true := by decide
  have hextension : fileExtension? "uc1.md" = some "md" ∧ fileExtension? "uc2.md" = some "md" := by
    decide
  have hstem : fileStem "uc1.md" = "uc1" ∧ fileStem "uc2.md" = "uc2" := by decide
  have hpath : joinPath (joinPath "corpus" "REQ-0001") "uc1.md" = "corpus/REQ-0001/uc1.md" ∧
      joinPath (joinPath "corpus" "REQ-0001") "uc2.md" = "corpus/REQ-0001/uc2.md" := by decide
  have hlisted : (twoScenarios second).flatMap (requirementFiles "corpus" "md") = twoFiles := by
    simp [twoScenarios, requirementFiles, scenarioFile?, FileTree.isFile, hextension, hstem, hpath,
      twoFiles]
  rw [discover, hlocate, ← List.mergeSort_of_pairwise hsorted, ← hlisted]

theorem sameBut_twoCorpus (second second' : ByteArray) :
    FileTree.SameBut (pathLocation "corpus/REQ-0001/uc2.md") (twoCorpus second)
      (twoCorpus second') := by
  have hlocation : pathLocation "corpus/REQ-0001/uc2.md" = ["corpus", "REQ-0001", "uc2.md"] := by
    decide
  rw [hlocation]
  exact @FileTree.SameBut.entry _ _ _ _ [] [] (@FileTree.SameBut.entry _ _ _ _ [] []
    (@FileTree.SameBut.entry _ _ _ _ [("uc1.md", .file "actor a AS A\n".toUTF8)] []
      (.file second second')))

/-- The text of the second scenario is broken, which does not touch the first one. -/
theorem loadsAll_with_broken_text :
    (twoCorpus ⟨#[0xff]⟩).WellFormed ∧
    (twoCorpus ⟨#[0xff]⟩).locate "corpus" = .ok (.directory (twoScenarios ⟨#[0xff]⟩)) ∧
    LoadsAll {} (twoCorpus ⟨#[0xff]⟩) "corpus" twoFiles
      ⟨[⟨⟨"REQ-0001", "uc1"⟩, [⟨"a", "A", .actor, true⟩], []⟩],
        [(⟨"REQ-0001", "uc2"⟩, .unreadable .invalidText)]⟩ ∧
    ∀ other, FileTree.SameBut (pathLocation "corpus/REQ-0001/uc2.md") (twoCorpus ⟨#[0xff]⟩)
      (twoCorpus other) := by
  have hwell := wellFormed_twoCorpus ⟨#[0xff]⟩
  have hroot : (twoCorpus ⟨#[0xff]⟩).locate "corpus" =
    .ok (.directory (twoScenarios ⟨#[0xff]⟩)) := rfl
  refine ⟨hwell, hroot, ?_, sameBut_twoCorpus _⟩
  obtain ⟨files, corpus, hloads⟩ := loadsAll hwell hroot {}
  have hdiscover : discover (twoCorpus ⟨#[0xff]⟩) "corpus" ({} : LoadSettings).extension =
    .ok twoFiles := discover_twoCorpus _
  have hcorpus := loadCorpus_eq_ofFiles hdiscover
  obtain rfl := Except.ok.inj (hloads.discovers.symm.trans hdiscover)
  obtain rfl := Except.ok.inj (hloads.loads.symm.trans hcorpus)
  exact hloads

end BrokenText

end UseCaseFlow
