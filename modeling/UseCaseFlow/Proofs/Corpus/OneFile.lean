import UseCaseFlow.Proofs.Corpus.FileTree

/-!
# Trees that differ in one file

Two trees are the same but for the content of the file at some location. A path that leads to a place
in one of them leads to the same place in the other, and finds the same there unless the file is at
or below that place.
-/

namespace UseCaseFlow

/-- The names from the top of a tree down to where the parts lead, starting below `names`. -/
def locationFrom (names : List String) : List String → List String
  | [] => names
  | part :: rest =>
    if part = "" ∨ part = "." then locationFrom names rest
    else if part = ".." then locationFrom names.dropLast rest
    else locationFrom (names ++ [part]) rest

def pathLocation (path : String) : List String :=
  locationFrom [] (pathParts path)

/-- The trees are the same but for the content of the file at the location. -/
inductive FileTree.SameBut : (location : List String) → FileTree → FileTree → Prop
  | file (content content' : ByteArray) : SameBut [] (.file content) (.file content')
  | entry {name : String} {location : List String} {child child' : FileTree}
      {front back : Entries} (h : SameBut location child child') :
      SameBut (name :: location) (.directory (front ++ (name, child) :: back))
        (.directory (front ++ (name, child') :: back))

/-- What stands at `names` is the same, but for the content of the file at the location. -/
def FileTree.SameAt (location names : List String) (node node' : FileTree) : Prop :=
  node = node' ∨ ∃ rest, location = names ++ rest ∧ FileTree.SameBut rest node node'

section Location

variable {base name : String}

theorem locationFrom_append (names left right : List String) :
    locationFrom names (left ++ right) = locationFrom (locationFrom names left) right := by
  induction left generalizing names with
  | nil => rfl
  | cons part left ih =>
    rw [List.cons_append, locationFrom, locationFrom]
    split
    · exact ih _
    · split
      · exact ih _
      · exact ih _

theorem pathLocation_joinPath (hbase : base ≠ "") (hname : LegalName name) :
    pathLocation (joinPath base name) = pathLocation base ++ [name] := by
  obtain ⟨parts, last, hparts, hbase, hlast⟩ := pathParts_joinPath hbase hname.no_slash
  have hstay (names : List String) : locationFrom names last = names := by
    rcases hlast with rfl | rfl
    · rfl
    · simp [locationFrom]
  rw [pathLocation, pathLocation, hparts, hbase, locationFrom_append, locationFrom_append, hstay]
  simp [locationFrom, hname.ne_empty, hname.ne_dot, hname.ne_dots]

end Location

namespace FileTree

variable {location names : List String} {entries : Entries} {tree tree' node node' : FileTree}

theorem SameBut.isFile_eq (h : SameBut location node node') : node'.isFile = node.isFile := by
  cases h with
  | file content content' => rfl
  | entry h => rfl

theorem SameAt.file_eq {content : ByteArray} (h : SameAt location names (.file content) node')
    (hother : names ≠ location) : node' = .file content := by
  rcases h with rfl | ⟨rest, rfl, h⟩
  · rfl
  · cases h with
    | file content content' => exact absurd (List.append_nil names).symm hother

/-- The entries of a directory that is the same at some names are so one name further. -/
theorem SameAt.exists_entries (h : SameAt location names (.directory entries) node') :
    ∃ entries', node' = .directory entries' ∧ ∀ name child,
      Entries.get? entries name = some child → ∃ child', Entries.get? entries' name = some child' ∧
        SameAt location (names ++ [name]) child child' := by
  rcases h with rfl | ⟨rest, rfl, h⟩
  · exact ⟨entries, rfl, fun name child hget => ⟨child, hget, Or.inl rfl⟩⟩
  · cases h with
    | @entry changed rest child child' front back h =>
      refine ⟨_, rfl, fun name node hget => ?_⟩
      rw [Entries.get?, List.find?_append] at hget ⊢
      cases hfront : front.find? (·.1 = name) with
      | some found =>
        rw [hfront] at hget
        exact ⟨node, hget, Or.inl rfl⟩
      | none =>
        rw [hfront, Option.none_or] at hget
        rw [Option.none_or]
        by_cases hname : changed = name
        · subst hname
          obtain rfl : child = node := by simpa using hget
          exact ⟨child', by simp, Or.inr ⟨rest, by simp, h⟩⟩
        · rw [List.find?_cons_of_neg (by simpa using hname)] at hget ⊢
          exact ⟨node, hget, Or.inl rfl⟩

/-- Two ways from the top of a tree, the innermost directory first, through the same names. -/
inductive Aligned (location : List String) :
    (names : List String) → List FileTree → List FileTree → Prop
  | top {node node' : FileTree} (h : SameAt location [] node node') :
      Aligned location [] [node] [node']
  | entered {names : List String} {name : String} {node node' : FileTree}
      {above above' : List FileTree} (h : SameAt location (names ++ [name]) node node')
      (habove : Aligned location names above above') :
      Aligned location (names ++ [name]) (node :: above) (node' :: above')

theorem Aligned.head {above above' : List FileTree}
    (h : Aligned location names (node :: above) (node' :: above')) :
    SameAt location names node node' := by
  cases h with
  | top h => exact h
  | entered h habove => exact h

theorem Aligned.exists_parent {parent : FileTree} {outer above' : List FileTree}
    (h : Aligned location names (node :: parent :: outer) (node' :: above')) :
    ∃ parent' outer', above' = parent' :: outer' ∧
      Aligned location names.dropLast (parent :: outer) (parent' :: outer') := by
  cases h with
  | entered h habove =>
    rw [List.dropLast_concat]
    cases habove with
    | top h => exact ⟨_, _, rfl, .top h⟩
    | entered h habove => exact ⟨_, _, rfl, .entered h habove⟩

theorem Aligned.exists_follow {parts : List String} {above above' : List FileTree}
    {here here' : FileTree} (h : Aligned location names (here :: above) (here' :: above'))
    (hfollow : follow above here parts = .ok node) :
    ∃ node', follow above' here' parts = .ok node' ∧
      SameAt location (locationFrom names parts) node node' := by
  induction parts generalizing names above here above' here' with
  | nil =>
    obtain rfl := Except.ok.inj hfollow
    exact ⟨here', rfl, h.head⟩
  | cons part parts ih =>
    cases here with
    | file content => contradiction
    | directory entries =>
      obtain ⟨entries', rfl, hentries⟩ := h.head.exists_entries
      simp only [follow, locationFrom] at hfollow ⊢
      by_cases hstay : part = "" ∨ part = "."
      · simp only [if_pos hstay] at hfollow ⊢
        exact ih h hfollow
      simp only [if_neg hstay] at hfollow ⊢
      by_cases hup : part = ".."
      · simp only [if_pos hup] at hfollow ⊢
        cases above with
        | nil => contradiction
        | cons parent outer =>
          obtain ⟨parent', outer', rfl, hparent⟩ := h.exists_parent
          exact ih hparent hfollow
      · simp only [if_neg hup] at hfollow ⊢
        cases hget : Entries.get? entries part with
        | none =>
          rw [hget] at hfollow
          contradiction
        | some child =>
          obtain ⟨child', hget', hchild⟩ := hentries part child hget
          rw [hget] at hfollow
          rw [hget']
          exact ih (.entered hchild h) hfollow

theorem SameBut.exists_locate {path : String} (h : SameBut location tree tree')
    (hlocate : tree.locate path = .ok node) : ∃ node', tree'.locate path = .ok node' ∧
      SameAt location (pathLocation path) node node' := by
  obtain ⟨hempty, habsolute, hnul, hfollow⟩ := locate_eq_ok_iff.mp hlocate
  have htop : Aligned location [] [tree] [tree'] := .top (Or.inr ⟨location, rfl, h⟩)
  obtain ⟨node', hfollow', hsame⟩ := htop.exists_follow hfollow
  exact ⟨node', locate_eq_ok_iff.mpr ⟨hempty, habsolute, hnul, hfollow'⟩, hsame⟩

end FileTree

end UseCaseFlow
