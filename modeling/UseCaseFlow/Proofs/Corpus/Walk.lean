import UseCaseFlow.Proofs.Corpus.Isolation

/-!
# Any order of the walk

Discovery visits every entry two levels below the root, in whatever order the directories yield
them. The listed files are the regular files among those entries that have the extension, and they
are listed in one order, as no two of them are equal in key and path.
-/

namespace UseCaseFlow

section Order

variable {a b : ScenarioFile}

/-- By requirement, by use case within a requirement, and by path where the keys are equal. -/
def ScenarioFile.Before (a b : ScenarioFile) : Prop :=
  a.key.req < b.key.req ∨ a.key.req = b.key.req ∧
    (a.key.ucid < b.key.ucid ∨ a.key.ucid = b.key.ucid ∧ a.path < b.path)

theorem ScenarioFile.order_eq_lt_iff : a.order b = .lt ↔ a.Before b := by
  simp only [order, ScenarioKey.order, Ordering.then_eq_lt, Ordering.then_eq_eq, compare_lt_iff_lt,
    compare_eq_iff_eq, Before]
  tauto

theorem ScenarioFile.order_eq_eq_iff : a.order b = .eq ↔ a = b := by
  obtain ⟨⟨req, ucid⟩, path⟩ := a
  obtain ⟨⟨req', ucid'⟩, path'⟩ := b
  simp [order, ScenarioKey.order, Ordering.then_eq_eq]

theorem ScenarioFile.notAfter_iff : a.notAfter b = true ↔ a.Before b ∨ a = b := by
  rw [notAfter, Ordering.isLE_iff_eq_lt_or_eq_eq, order_eq_lt_iff, order_eq_eq_iff]

end Order

section Walk

/-- An entry two levels below the root, with the name of the directory that holds it. -/
structure Visit where
  req : String
  name : String
  node : FileTree

def Visit.scenarioFile? (root extension : String) (visit : Visit) : Option ScenarioFile :=
  UseCaseFlow.scenarioFile? root extension visit.req (visit.name, visit.node)

/-- What discovery makes of the entries that a walk yields. -/
def collect (root extension : String) (walk : List Visit) : List ScenarioFile :=
  (walk.filterMap (Visit.scenarioFile? root extension)).mergeSort ScenarioFile.notAfter

/-- The walk yields every entry two levels below the root exactly once, in some order. -/
structure Walks (entries : Entries) (walk : List Visit) : Prop where
  mem_iff (visit : Visit) : visit ∈ walk ↔ ∃ siblings,
    (visit.req, .directory siblings) ∈ entries ∧ (visit.name, visit.node) ∈ siblings
  nodup : walk.Nodup

def requirementVisits (entry : String × FileTree) : List Visit :=
  match entry.2 with
  | .file _ => []
  | .directory siblings => siblings.map fun sibling => ⟨entry.1, sibling.1, sibling.2⟩

/-- The walk in the order in which the tree holds its entries. -/
def Entries.visits (entries : Entries) : List Visit :=
  entries.flatMap requirementVisits

variable {tree : FileTree} {root extension : String} {entries : Entries} {walk walk' : List Visit}

theorem mem_requirementVisits_iff {visit : Visit} {entry : String × FileTree} :
    visit ∈ requirementVisits entry ↔ ∃ siblings, (visit.req, .directory siblings) = entry ∧
      (visit.name, visit.node) ∈ siblings := by
  obtain ⟨req, child⟩ := entry
  obtain ⟨visited, name, node⟩ := visit
  cases child with
  | file content => simp [requirementVisits]
  | directory siblings =>
    simp only [requirementVisits, List.mem_map, Visit.mk.injEq, Prod.mk.injEq,
      FileTree.directory.injEq]
    constructor
    · rintro ⟨sibling, hmem, rfl, rfl, rfl⟩
      exact ⟨siblings, ⟨rfl, rfl⟩, hmem⟩
    · rintro ⟨_, ⟨rfl, rfl⟩, hmem⟩
      exact ⟨_, hmem, rfl, rfl, rfl⟩

theorem requirementFiles_eq_filterMap (root extension : String) (entry : String × FileTree) :
    requirementFiles root extension entry =
      (requirementVisits entry).filterMap (Visit.scenarioFile? root extension) := by
  obtain ⟨req, child⟩ := entry
  cases child with
  | file content => rfl
  | directory siblings =>
    rw [requirementFiles, requirementVisits, List.filterMap_map]
    rfl

theorem discover_eq_collect (hroot : tree.locate root = .ok (.directory entries))
    (extension : String) :
    discover tree root extension = .ok (collect root extension entries.visits) := by
  have hfiles : entries.flatMap (requirementFiles root extension) =
      entries.visits.filterMap (Visit.scenarioFile? root extension) := by
    rw [Entries.visits, List.filterMap_flatMap]
    exact congrArg (List.flatMap · entries) (funext (requirementFiles_eq_filterMap root extension))
  rw [discover, hroot]
  exact congrArg (fun files => Except.ok (files.mergeSort ScenarioFile.notAfter)) hfiles

theorem collect_eq_of_perm (h : walk.Perm walk') :
    collect root extension walk = collect root extension walk' :=
  mergeSort_isLE_eq_of_perm (h.filterMap _) fun _ _ _ _ => ScenarioFile.order_eq_eq_iff.mp

theorem FileTree.WellFormed.nodup_visits (h : (FileTree.directory entries).WellFormed) :
    entries.visits.Nodup := by
  rw [Entries.visits, List.Nodup, List.pairwise_flatMap]
  constructor
  · rintro ⟨req, child⟩ hmem
    cases child with
    | file content => exact List.Pairwise.nil
    | directory siblings =>
      rw [requirementVisits, List.pairwise_map]
      refine (h.of_mem hmem).pairwise_name_ne.imp ?_
      intro a b hne hsame
      exact hne (Visit.mk.inj hsame).2.1
  · refine h.pairwise_name_ne.imp ?_
    rintro a b hne visit hvisit visit' hvisit' rfl
    obtain ⟨_, rfl, -⟩ := mem_requirementVisits_iff.mp hvisit
    obtain ⟨_, rfl, -⟩ := mem_requirementVisits_iff.mp hvisit'
    exact hne rfl

theorem FileTree.WellFormed.walks_visits (h : (FileTree.directory entries).WellFormed) :
    Walks entries entries.visits where
  mem_iff visit := by
    simp only [Entries.visits, List.mem_flatMap, mem_requirementVisits_iff]
    constructor
    · rintro ⟨_, hentry, siblings, rfl, hmem⟩
      exact ⟨siblings, hentry, hmem⟩
    · rintro ⟨siblings, hentry, hmem⟩
      exact ⟨_, hentry, siblings, rfl, hmem⟩
  nodup := h.nodup_visits

theorem Walks.perm (h : Walks entries walk) (h' : Walks entries walk') : walk.Perm walk' :=
  (List.perm_ext_iff_of_nodup h.nodup h'.nodup).mpr fun visit =>
    (h.mem_iff visit).trans (h'.mem_iff visit).symm

theorem Walks.of_perm (h : Walks entries walk) (hperm : walk.Perm walk') : Walks entries walk' :=
  ⟨fun visit => hperm.mem_iff.symm.trans (h.mem_iff visit), hperm.nodup_iff.mp h.nodup⟩

end Walk

section Names

/-- The text after the last dot of the name, which is not at its start. -/
def HasExtension (name extension : String) : Prop :=
  ∃ stem, stem ≠ "" ∧ name = stem ++ "." ++ extension ∧ '.' ∉ extension.toList

/-- A regular file two levels below the root that has the extension. -/
structure Entries.HoldsScenario (entries : Entries) (extension req name : String) : Prop where
  regular : ∃ siblings content, (req, .directory siblings) ∈ entries ∧
    (name, .file content) ∈ siblings
  extension : HasExtension name extension

/-- What a file of that name in that directory is listed as. The use case is the name up to its
first dot. -/
def ScenarioFile.StandsFor (file : ScenarioFile) (root req name : String) : Prop :=
  ∃ ucid rest, '.' ∉ ucid.toList ∧ name = ucid ++ "." ++ rest ∧
    file = ⟨⟨req, ucid⟩, joinPath (joinPath root req) name⟩

variable {root extension req name : String} {entries : Entries} {file file' : ScenarioFile}

theorem HasExtension.exists_eq_fileStem_append (h : HasExtension name extension) :
    ∃ rest, name = fileStem name ++ "." ++ rest := by
  obtain ⟨stem, -, hstem, -⟩ := h
  obtain ⟨before, behind, hname, hfirst⟩ :=
    List.eq_append_cons_of_mem (show '.' ∈ name.toList by simp [hstem])
  have hsplit : name = String.ofList before ++ "." ++ String.ofList behind := by
    rw [← String.toList_inj, hname]
    simp
  have hbefore : fileStem name = String.ofList before := by
    rw [hsplit]
    exact fileStem_append (by simpa using hfirst)
  exact ⟨String.ofList behind, by rw [hbefore, ← hsplit]⟩

theorem ScenarioFile.StandsFor.eq (h : file.StandsFor root req name)
    (h' : file'.StandsFor root req name) : file = file' := by
  obtain ⟨ucid, rest, hdot, hname, rfl⟩ := h
  obtain ⟨ucid', rest', hdot', hname', rfl⟩ := h'
  have hucid : ucid = ucid' := by
    rw [← fileStem_append hdot, ← hname, hname', fileStem_append hdot']
  rw [hucid]

theorem ScenarioFile.StandsFor.place_eq {place place' : String × String}
    (h : file.StandsFor root place.1 place.2) (h' : file.StandsFor root place'.1 place'.2)
    (hroot : root ≠ "") (hreq : LegalName place.1) (hreq' : LegalName place'.1)
    (hname : LegalName place.2) (hname' : LegalName place'.2) : place = place' := by
  obtain ⟨ucid, rest, -, -, rfl⟩ := h
  obtain ⟨ucid', rest', -, -, hfile⟩ := h'
  have hpath := congrArg (fun file => pathLocation file.path) hfile
  obtain ⟨hreqs, hnames⟩ := names_eq_of_pathLocation_eq hroot hreq hreq' hname hname' hpath
  exact Prod.ext hreqs hnames

theorem ScenarioFile.exists_listedAs_iff :
    (∃ siblings name content, file.ListedAs root extension entries siblings name content) ↔
      ∃ req name, entries.HoldsScenario extension req name ∧ file.StandsFor root req name := by
  constructor
  · rintro ⟨siblings, name, content, h⟩
    have hextension : HasExtension name extension := fileExtension?_eq_some_iff.mp h.extension
    obtain ⟨rest, hrest⟩ := hextension.exists_eq_fileStem_append
    refine ⟨file.key.req, name, ⟨⟨siblings, content, h.directory, h.entry⟩, hextension⟩, ?_⟩
    refine ⟨fileStem name, rest, dot_not_mem_fileStem name, hrest, ?_⟩
    rw [← h.ucid, ← h.path]
  · rintro ⟨req, name, ⟨⟨siblings, content, hdirectory, hentry⟩, hextension⟩, h⟩
    obtain ⟨ucid, rest, hdot, hname, rfl⟩ := h
    refine ⟨siblings, name, content, hdirectory, hentry, ?_, ?_, rfl⟩
    · exact fileExtension?_eq_some_iff.mpr hextension
    · rw [hname, fileStem_append hdot]

theorem Entries.HoldsScenario.legalNames (h : entries.HoldsScenario extension req name)
    (hwell : (FileTree.directory entries).WellFormed) : LegalName req ∧ LegalName name := by
  obtain ⟨siblings, content, hdirectory, hentry⟩ := h.regular
  exact ⟨hwell.legalName hdirectory, (hwell.of_mem hdirectory).legalName hentry⟩

theorem Entries.HoldsScenario.exists_standsFor (h : entries.HoldsScenario extension req name)
    (root : String) : ∃ file : ScenarioFile, file.StandsFor root req name := by
  obtain ⟨rest, hrest⟩ := h.extension.exists_eq_fileStem_append
  exact ⟨_, fileStem name, rest, dot_not_mem_fileStem name, hrest, rfl⟩

end Names

section Exact

variable {tree : FileTree} {root extension : String} {entries : Entries}
  {files : List ScenarioFile}

theorem discover_eq_notFound_iff : discover tree root extension = .error (.notFound root) ↔
    ∀ entries, tree.locate root ≠ .ok (.directory entries) := by
  rw [discover]
  split
  · rename_i entries h
    simp [h]
  · rename_i h
    simpa using h

theorem mem_iff_of_discover (hroot : tree.locate root = .ok (.directory entries))
    (h : discover tree root extension = .ok files) (file : ScenarioFile) : file ∈ files ↔
      ∃ req name, entries.HoldsScenario extension req name ∧ file.StandsFor root req name := by
  obtain ⟨listed, hlisted, hmem⟩ := exists_discover hroot extension
  obtain rfl := Except.ok.inj (h.symm.trans hlisted)
  rw [hmem, ScenarioFile.exists_listedAs_iff]

theorem nodup_of_discover (hwell : tree.WellFormed)
    (hroot : tree.locate root = .ok (.directory entries))
    (h : discover tree root extension = .ok files) : files.Nodup :=
  (nodup_path_of_discover hwell hroot h).of_map _

theorem pairwise_before_of_discover (hwell : tree.WellFormed)
    (hroot : tree.locate root = .ok (.directory entries))
    (h : discover tree root extension = .ok files) : files.Pairwise ScenarioFile.Before := by
  have hnodup := nodup_of_discover hwell hroot h
  rw [discover_eq_collect hroot] at h
  obtain rfl := Except.ok.inj h
  refine ((pairwise_mergeSort_isLE _).and hnodup).imp ?_
  intro a b hab
  exact (ScenarioFile.notAfter_iff.mp hab.1).resolve_right hab.2

theorem existsUnique_index_of_discover (hwell : tree.WellFormed)
    (hroot : tree.locate root = .ok (.directory entries))
    (h : discover tree root extension = .ok files) {req name : String}
    (hholds : entries.HoldsScenario extension req name) :
    ∃! i : Fin files.length, files[i].StandsFor root req name := by
  obtain ⟨file, hfile⟩ := hholds.exists_standsFor root
  have hmem := (mem_iff_of_discover hroot h file).mpr ⟨req, name, hholds, hfile⟩
  obtain ⟨i, hi, rfl⟩ := List.getElem_of_mem hmem
  refine ⟨⟨i, hi⟩, hfile, ?_⟩
  intro j hj
  exact Fin.ext ((nodup_of_discover hwell hroot h).getElem_inj_iff.mp (hj.eq hfile))

theorem existsUnique_place_of_discover (hwell : tree.WellFormed)
    (hroot : tree.locate root = .ok (.directory entries))
    (h : discover tree root extension = .ok files) {file : ScenarioFile} (hfile : file ∈ files) :
    ∃! place : String × String, entries.HoldsScenario extension place.1 place.2 ∧
      file.StandsFor root place.1 place.2 := by
  have hentries := hwell.of_locate hroot
  have hempty := (FileTree.locate_eq_ok_iff.mp hroot).1
  obtain ⟨req, name, hholds, hstands⟩ := (mem_iff_of_discover hroot h file).mp hfile
  obtain ⟨hreq, hname⟩ := hholds.legalNames hentries
  refine ⟨(req, name), ⟨hholds, hstands⟩, ?_⟩
  intro place hplace
  obtain ⟨hreq', hname'⟩ := hplace.1.legalNames hentries
  exact hplace.2.place_eq hstands hempty hreq' hreq hname' hname

end Exact

/-- The files of a root. -/
structure Lists (tree : FileTree) (root extension : String) (entries : Entries)
    (files : List ScenarioFile) : Prop where
  discovers : discover tree root extension = .ok files
  /-- Every regular file two levels below the root with the extension has exactly one entry. -/
  once (req name : String) (h : entries.HoldsScenario extension req name) :
    ∃! i : Fin files.length, files[i].StandsFor root req name
  /-- Every entry is that of exactly one such file. -/
  only (file : ScenarioFile) (h : file ∈ files) : ∃! place : String × String,
    entries.HoldsScenario extension place.1 place.2 ∧ file.StandsFor root place.1 place.2
  ascending : files.Pairwise ScenarioFile.Before
  /-- The order of the walk does not matter. -/
  walked (walk : List Visit) (h : Walks entries walk) : collect root extension walk = files
  /-- Neither does the order of the entries in a tree. -/
  reordered (tree' : FileTree) (entries' : Entries)
    (hroot : tree'.locate root = .ok (.directory entries')) (h : Walks entries entries'.visits) :
    discover tree' root extension = .ok files

/-- Discovery fails exactly where the root is not a directory, and otherwise lists its files. -/
theorem discover_exact {tree : FileTree} (hwell : tree.WellFormed) (root extension : String) :
    (discover tree root extension = .error (.notFound root) ↔
      ∀ entries, tree.locate root ≠ .ok (.directory entries)) ∧
    ∀ entries : Entries, tree.locate root = .ok (.directory entries) →
      ∃ files, Lists tree root extension entries files := by
  refine ⟨discover_eq_notFound_iff, ?_⟩
  intro entries hroot
  have hfiles := discover_eq_collect hroot extension
  have hwalk (walk : List Visit) (h : Walks entries walk) :
      collect root extension walk = collect root extension entries.visits :=
    collect_eq_of_perm (h.perm (hwell.of_locate hroot).walks_visits)
  refine ⟨_, hfiles, ?_, ?_, pairwise_before_of_discover hwell hroot hfiles, hwalk, ?_⟩
  · intro req name h
    exact existsUnique_index_of_discover hwell hroot hfiles h
  · intro file h
    exact existsUnique_place_of_discover hwell hroot hfiles h
  · intro tree' entries' hroot' h
    rw [discover_eq_collect hroot', hwalk _ h]

section Drafts

/-- Names with many dots, two files of one key, and a directory that has the extension. -/
def draftsRequirement : Entries :=
  [(".md", .file .empty), ("archive.md", .directory [("uc9.md", .file .empty)]),
    ("uc3.draft.md", .file .empty), ("uc3.final.md", .file .empty), ("uc4.", .file .empty)]

/-- The requirements are not in the order of their names. -/
def draftsRoot : Entries :=
  [("README.md", .file .empty), ("REQ-0002", .directory [("uc1.md", .file .empty)]),
    ("REQ-0001", .directory draftsRequirement)]

def draftsTree : FileTree :=
  .directory [("corpus", .directory draftsRoot)]

theorem wellFormed_draftsRoot : (FileTree.directory draftsRoot).WellFormed := by
  have hnames : (∀ name ∈ [".md", "archive.md", "uc3.draft.md", "uc3.final.md", "uc4."],
      LegalName name) ∧ (∀ name ∈ ["README.md", "REQ-0002", "REQ-0001"], LegalName name) ∧
      LegalName "uc9.md" ∧ LegalName "uc1.md" := by decide
  obtain ⟨hdrafts, hroot, huc9, huc1⟩ := hnames
  have hone (name : String) (h : LegalName name) :
      (FileTree.directory [(name, .file .empty)]).WellFormed :=
    .directory (by simp) (by simpa using h) (by simp [FileTree.WellFormed.file])
  have hrequirement : (FileTree.directory draftsRequirement).WellFormed := by
    refine .directory ?_ (List.forall_mem_map.mp hdrafts) ?_
    · show [".md", "archive.md", "uc3.draft.md", "uc3.final.md", "uc4."].Nodup
      decide
    · simp [draftsRequirement, FileTree.WellFormed.file, hone _ huc9]
  refine .directory ?_ (List.forall_mem_map.mp hroot) ?_
  · show ["README.md", "REQ-0002", "REQ-0001"].Nodup
    decide
  · simp [draftsRoot, FileTree.WellFormed.file, hone _ huc1, hrequirement]

def draftsFiles : List ScenarioFile :=
  [⟨⟨"REQ-0001", "uc3"⟩, "corpus/REQ-0001/uc3.draft.md"⟩,
    ⟨⟨"REQ-0001", "uc3"⟩, "corpus/REQ-0001/uc3.final.md"⟩,
    ⟨⟨"REQ-0002", "uc1"⟩, "corpus/REQ-0002/uc1.md"⟩]

/-- Visits the requirements in the order of their names. -/
def draftsWalk : List Visit :=
  requirementVisits ("REQ-0001", .directory draftsRequirement) ++
    requirementVisits ("REQ-0002", .directory [("uc1.md", .file .empty)])

theorem walks_draftsWalk : Walks draftsRoot draftsWalk := by
  apply wellFormed_draftsRoot.walks_visits.of_perm
  show (requirementVisits ("REQ-0002", .directory [("uc1.md", .file .empty)]) ++
    requirementVisits ("REQ-0001", .directory draftsRequirement)).Perm draftsWalk
  exact List.perm_append_comm

theorem collect_draftsWalk : collect "corpus" "md" draftsWalk = draftsFiles := by
  have hsorted : draftsFiles.Pairwise fun a b => a.notAfter b = true := by decide
  have hfiles : draftsWalk.filterMap (Visit.scenarioFile? "corpus" "md") = draftsFiles := by
    decide
  rw [collect, hfiles, List.mergeSort_of_pairwise hsorted]

/-- The drafts are listed by key, whichever requirement the walk visits first. -/
theorem discover_exact_of_drafts :
    draftsTree.WellFormed ∧ draftsTree.locate "corpus" = .ok (.directory draftsRoot) ∧
    Walks draftsRoot draftsWalk ∧ Lists draftsTree "corpus" "md" draftsRoot draftsFiles ∧
    discover draftsTree "corpus/README.md" "md" = .error (.notFound "corpus/README.md") := by
  have hname : LegalName "corpus" := by decide
  have hwell : draftsTree.WellFormed :=
    .directory (by simp) (by simpa using hname) (by simpa using wellFormed_draftsRoot)
  have hroot : draftsTree.locate "corpus" = .ok (.directory draftsRoot) := rfl
  refine ⟨hwell, hroot, walks_draftsWalk, ?_, ?_⟩
  · obtain ⟨files, hlists⟩ := (discover_exact hwell "corpus" "md").2 draftsRoot hroot
    obtain rfl := (hlists.walked draftsWalk walks_draftsWalk).symm.trans collect_draftsWalk
    exact hlists
  · have hfile : draftsTree.locate "corpus/README.md" = .ok (.file .empty) := rfl
    apply (discover_exact hwell "corpus/README.md" "md").1.mpr
    simp [hfile]

end Drafts

end UseCaseFlow
