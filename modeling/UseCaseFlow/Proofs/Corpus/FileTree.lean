import UseCaseFlow.Corpus.FileTree
import UseCaseFlow.Proofs.Corpus.Path

/-!
# Well-formed file trees

The entries of a directory have distinct names, and none that a path reads in another way. A path
that is extended by a name then leads to the entry of that name.
-/

namespace UseCaseFlow

/-- A name that an entry of a directory can have. -/
structure LegalName (name : String) : Prop where
  ne_empty : name ≠ ""
  ne_dot : name ≠ "."
  ne_dots : name ≠ ".."
  no_slash : '/' ∉ name.toList
  no_nul : '\x00' ∉ name.toList

instance (name : String) : Decidable (LegalName name) :=
  decidable_of_iff (name ≠ "" ∧ name ≠ "." ∧ name ≠ ".." ∧ '/' ∉ name.toList ∧ '\x00' ∉ name.toList)
    ⟨fun ⟨h₁, h₂, h₃, h₄, h₅⟩ => ⟨h₁, h₂, h₃, h₄, h₅⟩,
      fun ⟨h₁, h₂, h₃, h₄, h₅⟩ => ⟨h₁, h₂, h₃, h₄, h₅⟩⟩

inductive FileTree.WellFormed : FileTree → Prop where
  | file (content : ByteArray) : (FileTree.file content).WellFormed
  | directory {entries : Entries} (distinct : (entries.map (·.1)).Nodup)
      (legal : ∀ entry ∈ entries, LegalName entry.1)
      (below : ∀ entry ∈ entries, entry.2.WellFormed) : (FileTree.directory entries).WellFormed

section Entries

variable {entries : Entries} {name : String} {child : FileTree}

theorem FileTree.WellFormed.legalName (h : (FileTree.directory entries).WellFormed)
    (hmem : (name, child) ∈ entries) : LegalName name := by
  cases h with
  | directory _ legal _ => exact legal _ hmem

theorem FileTree.WellFormed.of_mem (h : (FileTree.directory entries).WellFormed)
    (hmem : (name, child) ∈ entries) : child.WellFormed := by
  cases h with
  | directory _ _ below => exact below _ hmem

theorem Entries.mem_of_get? (h : Entries.get? entries name = some child) :
    (name, child) ∈ entries := by
  obtain ⟨entry, hfind, hchild⟩ := Option.map_eq_some_iff.mp h
  have hname : entry.1 = name := by simpa using List.find?_some hfind
  have hmem := List.mem_of_find?_eq_some hfind
  rwa [← hname, ← hchild]

theorem Entries.get?_of_mem (hdistinct : (entries.map (·.1)).Nodup)
    (hmem : (name, child) ∈ entries) : Entries.get? entries name = some child := by
  induction entries with
  | nil => contradiction
  | cons entry rest ih =>
    rw [List.map_cons, List.nodup_cons] at hdistinct
    rw [Entries.get?]
    cases hmem with
    | head => simp
    | tail _ hmem =>
      have hother : entry.1 ≠ name := by
        intro h
        exact hdistinct.1 (h ▸ List.mem_map_of_mem hmem)
      rw [List.find?_cons_of_neg (by simpa using hother)]
      exact ih hdistinct.2 hmem

theorem FileTree.WellFormed.get?_eq_some_iff (h : (FileTree.directory entries).WellFormed) :
    Entries.get? entries name = some child ↔ (name, child) ∈ entries := by
  constructor
  · exact Entries.mem_of_get?
  · intro hmem
    cases h with
    | directory distinct _ _ => exact Entries.get?_of_mem distinct hmem

end Entries

namespace FileTree

variable {above : List FileTree} {here node : FileTree} {part : String}
  {parts more : List String} {entries : Entries}

theorem exists_step (h : follow above here (part :: parts) = .ok node) :
    ∃ outer next, (∀ rest, follow above here (part :: rest) = follow outer next rest) ∧
      ((∀ t ∈ here :: above, t.WellFormed) → ∀ t ∈ next :: outer, t.WellFormed) := by
  cases here with
  | file content => contradiction
  | directory entries =>
    -- The way stays in the directory, leads back out of it or into one of its entries.
    simp only [follow] at h ⊢
    by_cases hstay : part = "" ∨ part = "."
    · simp only [if_pos hstay]
      exact ⟨above, _, fun _ => rfl, id⟩
    simp only [if_neg hstay] at h ⊢
    by_cases hup : part = ".."
    · simp only [if_pos hup] at h ⊢
      cases above with
      | nil => contradiction
      | cons parent outer =>
        refine ⟨outer, parent, fun _ => rfl, ?_⟩
        intro hwell t ht
        exact hwell t (List.mem_cons_of_mem _ ht)
    · simp only [if_neg hup] at h ⊢
      cases hget : Entries.get? entries part with
      | none =>
        rw [hget] at h
        contradiction
      | some child =>
        refine ⟨.directory entries :: above, child, fun _ => rfl, ?_⟩
        intro hwell t ht
        cases ht with
        | head => exact (hwell _ List.mem_cons_self).of_mem (Entries.mem_of_get? hget)
        | tail _ ht => exact hwell t ht

theorem exists_follow_append (h : follow above here (parts ++ more) = .ok node) :
    ∃ outer next, (∀ rest, follow above here (parts ++ rest) = follow outer next rest) ∧
      ((∀ t ∈ here :: above, t.WellFormed) → ∀ t ∈ next :: outer, t.WellFormed) := by
  induction parts generalizing above here with
  | nil => exact ⟨above, here, fun _ => rfl, id⟩
  | cons part parts ih =>
    obtain ⟨outer, next, hstep, hwell⟩ := exists_step h
    rw [List.cons_append, hstep] at h
    obtain ⟨outer', next', hrest, hwell'⟩ := ih h
    refine ⟨outer', next', ?_, fun h => hwell' (hwell h)⟩
    intro rest
    rw [List.cons_append, hstep, hrest]

/-- An empty part at the end says no more than that the place is a directory. -/
theorem exists_follow_directory {last : List String} (hlast : last = [] ∨ last = [""])
    (h : follow above here (parts ++ last) = .ok (.directory entries)) :
    ∃ outer, ∀ rest, follow above here (parts ++ rest) =
      follow outer (.directory entries) rest := by
  obtain ⟨outer, next, hrest, -⟩ := exists_follow_append h
  have hnext : next = .directory entries := by
    rw [hrest] at h
    cases hlast with
    | inl hnone =>
      subst hnone
      exact Except.ok.inj h
    | inr hempty =>
      subst hempty
      cases next with
      | file content => contradiction
      | directory _ => exact Except.ok.inj h
  exact ⟨outer, hnext ▸ hrest⟩

end FileTree

section Locate

variable {tree node child : FileTree} {base path name : String} {entries : Entries}

theorem FileTree.locate_eq_ok_iff :
    tree.locate path = .ok node ↔ path ≠ "" ∧ isAbsolute path = false ∧ '\x00' ∉ path.toList ∧
      tree.follow [] (pathParts path) = .ok node := by
  rw [locate]
  split
  · rename_i h
    constructor
    · intro h
      contradiction
    · rintro ⟨hempty, habsolute, hnul, -⟩
      simp [hempty, habsolute, hnul] at h
  · rename_i h
    have hpath : path ≠ "" ∧ isAbsolute path = false ∧ '\x00' ∉ path.toList := by
      simpa [and_assoc] using h
    simp [hpath]

theorem FileTree.WellFormed.of_locate (hwell : tree.WellFormed)
    (h : tree.locate path = .ok node) : node.WellFormed := by
  obtain ⟨-, -, -, hfollow⟩ := FileTree.locate_eq_ok_iff.mp h
  rw [← List.append_nil (pathParts path)] at hfollow
  obtain ⟨outer, next, hrest, hkept⟩ := FileTree.exists_follow_append hfollow
  rw [hrest] at hfollow
  obtain rfl := Except.ok.inj hfollow
  exact hkept (by simpa using hwell) _ List.mem_cons_self

theorem FileTree.exists_locate_joinPath (h : tree.locate base = .ok (.directory entries))
    (hslash : '/' ∉ name.toList) (hnul : '\x00' ∉ name.toList) :
    ∃ outer, ∀ node, tree.locate (joinPath base name) = .ok node ↔
      FileTree.follow outer (.directory entries) [name] = .ok node := by
  obtain ⟨hempty, habsolute, hbaseNul, hfollow⟩ := FileTree.locate_eq_ok_iff.mp h
  obtain ⟨parts, last, hparts, hbase, hlast⟩ := pathParts_joinPath hempty hslash
  rw [hbase] at hfollow
  obtain ⟨outer, hrest⟩ := FileTree.exists_follow_directory hlast hfollow
  refine ⟨outer, ?_⟩
  intro node
  rw [FileTree.locate_eq_ok_iff, hparts, hrest, isAbsolute_joinPath hempty hslash]
  have hnonempty : joinPath base name ≠ "" := joinPath_ne_empty hempty hslash
  have hplain : '\x00' ∉ (joinPath base name).toList :=
    not_mem_joinPath (by decide) hempty hbaseNul hslash hnul
  simp [hnonempty, habsolute, hplain]

theorem FileTree.locate_joinPath_eq_ok_iff (h : tree.locate base = .ok (.directory entries))
    (hwell : (FileTree.directory entries).WellFormed) (hname : LegalName name) :
    tree.locate (joinPath base name) = .ok child ↔ (name, child) ∈ entries := by
  obtain ⟨outer, hlocate⟩ := FileTree.exists_locate_joinPath h hname.no_slash hname.no_nul
  rw [hlocate, ← hwell.get?_eq_some_iff]
  simp only [FileTree.follow, hname.ne_empty, hname.ne_dot, hname.ne_dots, or_self, if_false]
  cases Entries.get? entries name with
  | none => simp
  | some entry => simp

theorem FileTree.hasFile_eq_true_iff :
    tree.hasFile path = true ↔ ∃ content, tree.locate path = .ok (.file content) := by
  rw [hasFile]
  cases tree.locate path with
  | error e => simp
  | ok node => cases node <;> simp [isFile]

/-- The names that a path reads in another way lead to no file either, but for the enclosing
directory. -/
theorem FileTree.hasFile_joinPath_iff (h : tree.locate base = .ok (.directory entries))
    (hwell : (FileTree.directory entries).WellFormed) (hslash : '/' ∉ name.toList)
    (hnul : '\x00' ∉ name.toList) (hdots : name ≠ "..") :
    tree.hasFile (joinPath base name) = true ↔ ∃ content, (name, .file content) ∈ entries := by
  rw [hasFile_eq_true_iff]
  by_cases hstay : name = "" ∨ name = "."
  · obtain ⟨outer, hlocate⟩ := FileTree.exists_locate_joinPath h hslash hnul
    constructor
    · rintro ⟨content, hfile⟩
      rw [hlocate] at hfile
      simp [follow, hstay] at hfile
    · rintro ⟨content, hmem⟩
      have hname := hwell.legalName hmem
      exact absurd hstay (not_or.mpr ⟨hname.ne_empty, hname.ne_dot⟩)
  · have hname : LegalName name :=
      ⟨fun h => hstay (Or.inl h), fun h => hstay (Or.inr h), hdots, hslash, hnul⟩
    simp only [FileTree.locate_joinPath_eq_ok_iff h hwell hname]

end Locate

end UseCaseFlow
