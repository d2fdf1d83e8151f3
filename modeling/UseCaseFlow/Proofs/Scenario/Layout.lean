import UseCaseFlow.Proofs.Scenario.Position

/-!
# Layout of a document

Blank lines, the blanks around the lines and the kind of line ends do not matter. Documents with the
same lines apart from these are read as the same scenario, or fail with the same error for
corresponding lines.
-/

namespace UseCaseFlow

def contentLines (document : String) : List NumberedLine :=
  (numberedLines document).filter (!·.text.isEmpty)

/-- The outcomes of reading two documents whose lines are `left` and `right`: the same scenario, or
the same error for the lines of the same position. -/
inductive SameOutcome (left right : List NumberedLine) :
    Except LoadError Scenario → Except LoadError Scenario → Prop
  | read (s : Scenario) : SameOutcome left right (.ok s) (.ok s)
  | unterminatedFence {position : Nat} {l r : NumberedLine} (hleft : left[position]? = some l)
      (hright : right[position]? = some r) :
      SameOutcome left right (.error (.unterminatedFence l.number))
        (.error (.unterminatedFence r.number))
  | malformed {position : Nat} {l r : NumberedLine} (hleft : left[position]? = some l)
      (hright : right[position]? = some r) (defect : Defect) :
      SameOutcome left right (.error (.parse (.onLine l.number defect)))
        (.error (.parse (.onLine r.number defect)))

section BlankLines

theorem isEmpty_text_of_isFence {line : NumberedLine} (h : line.isFence = true) :
    line.text.isEmpty = false := by
  rw [Bool.eq_false_iff]
  intro hempty
  rw [String.isEmpty_iff] at hempty
  rw [NumberedLine.isFence, hempty] at h
  contradiction

/-- Blank lines stand neither for a fence nor in the way of one. -/
theorem fencedLines_filter (all : List NumberedLine) :
    fencedLines (all.filter (!·.text.isEmpty)) =
      (fencedLines all).map (·.filter (!·.text.isEmpty)) := by
  have hany (line : NumberedLine) : (!line.text.isEmpty && line.isFence) = line.isFence := by
    cases h : line.isFence with
    | false => rw [Bool.and_false]
    | true => rw [isEmpty_text_of_isFence h, Bool.not_false, Bool.true_and]
  have hfence (line : NumberedLine) :
      (!(!line.text.isEmpty) || !line.isFence) = !line.isFence := by
    rw [← Bool.not_and, hany]
  simp only [fencedLines, List.dropWhile_filter, hfence]
  cases hdrop : all.dropWhile (!·.isFence) with
  | nil => rfl
  | cons fence rest =>
    have hhead : fence.isFence = true := by
      have h := List.head?_dropWhile_not (!·.isFence) all
      rw [hdrop] at h
      simpa using h
    rw [List.filter_cons_of_pos (by simp [isEmpty_text_of_isFence hhead])]
    simp only [List.any_filter, hany, List.takeWhile_filter, hfence]
    split
    · rfl
    · rfl

theorem diagramLines_eq_contentLines (document : String) :
    diagramLines document = (fencedLines (contentLines document)).map dropHeader := by
  rw [contentLines, fencedLines_filter, diagramLines]
  cases fencedLines (numberedLines document) <;> rfl

end BlankLines

section Counterparts

/-- Two lines of the same text. -/
structure LinePair where
  left : NumberedLine
  right : NumberedLine
  text_eq : left.text = right.text

theorem exists_linePairs {left right : List NumberedLine}
    (h : left.map (·.text) = right.map (·.text)) :
    ∃ pairs : List LinePair, left = pairs.map (·.left) ∧ right = pairs.map (·.right) := by
  induction left generalizing right with
  | nil =>
    rw [List.map_nil, eq_comm, List.map_eq_nil_iff] at h
    exact ⟨[], rfl, h⟩
  | cons l left ih =>
    cases right with
    | nil => contradiction
    | cons r right =>
      obtain ⟨htext, hrest⟩ := List.cons.inj h
      obtain ⟨pairs, hleft, hright⟩ := ih hrest
      exact ⟨⟨l, r, htext⟩ :: pairs, by rw [hleft, List.map_cons], by rw [hright, List.map_cons]⟩

variable (pairs : List LinePair)

theorem fencedLines_map {α : Type} (view : α → NumberedLine) (all : List α) :
    fencedLines (all.map view) =
      match all.dropWhile fun x => !(view x).isFence with
      | [] => .ok (all.map view)
      | fence :: rest =>
        if rest.any fun x => (view x).isFence then
          .ok ((rest.takeWhile fun x => !(view x).isFence).map view)
        else .error (.unterminatedFence (view fence).number) := by
  rw [fencedLines, List.dropWhile_map]
  simp only [Function.comp_def]
  cases all.dropWhile fun x => !(view x).isFence with
  | nil => rfl
  | cons fence rest => simp only [List.map_cons, List.any_map, List.takeWhile_map, Function.comp_def]

theorem fencedLines_pairs :
    (∃ kept : List LinePair, kept.Sublist pairs ∧
      fencedLines (pairs.map (·.left)) = .ok (kept.map (·.left)) ∧
      fencedLines (pairs.map (·.right)) = .ok (kept.map (·.right))) ∨
    ∃ p ∈ pairs, fencedLines (pairs.map (·.left)) = .error (.unterminatedFence p.left.number) ∧
      fencedLines (pairs.map (·.right)) = .error (.unterminatedFence p.right.number) := by
  have hright (p : LinePair) : p.right.isFence = p.left.isFence := by
    rw [NumberedLine.isFence, NumberedLine.isFence, p.text_eq]
  simp only [fencedLines_map, hright]
  cases hdrop : pairs.dropWhile fun p => !p.left.isFence with
  | nil => exact Or.inl ⟨pairs, .refl _, rfl, rfl⟩
  | cons fence rest =>
    have hrest : (fence :: rest).Sublist pairs := hdrop ▸ List.dropWhile_sublist _
    by_cases hany : (rest.any fun p => p.left.isFence) = true
    · simp only [if_pos hany]
      refine Or.inl ⟨rest.takeWhile fun p => !p.left.isFence, ?_, rfl, rfl⟩
      apply (List.takeWhile_sublist _).trans
      exact (List.sublist_cons_self fence rest).trans hrest
    · simp only [if_neg hany]
      exact Or.inr ⟨fence, hrest.subset List.mem_cons_self, rfl, rfl⟩

theorem dropHeader_pairs : ∃ kept : List LinePair, kept.Sublist pairs ∧
    dropHeader (pairs.map (·.left)) = kept.map (·.left) ∧
    dropHeader (pairs.map (·.right)) = kept.map (·.right) := by
  cases pairs with
  | nil => exact ⟨[], .refl _, rfl, rfl⟩
  | cons p rest =>
    simp only [List.map_cons, dropHeader, ← p.text_eq]
    by_cases htext : p.left.text = "sequenceDiagram"
    · simp only [if_pos htext]
      exact ⟨rest, List.sublist_cons_self p rest, rfl, rfl⟩
    · simp only [if_neg htext]
      exact ⟨p :: rest, .refl _, rfl, rfl⟩

variable {pairs} {document other : String}

/-- Documents with the same lines of text have diagrams with the same lines, or both leave the same
fence open. -/
theorem diagramLines_pairs (hleft : contentLines document = pairs.map (·.left))
    (hright : contentLines other = pairs.map (·.right)) :
    (∃ kept : List LinePair, kept.Sublist pairs ∧
      diagramLines document = .ok (kept.map (·.left)) ∧
      diagramLines other = .ok (kept.map (·.right))) ∨
    ∃ p ∈ pairs, diagramLines document = .error (.unterminatedFence p.left.number) ∧
      diagramLines other = .error (.unterminatedFence p.right.number) := by
  simp only [diagramLines_eq_contentLines, hleft, hright]
  rcases fencedLines_pairs pairs with ⟨inside, hinside, hl, hr⟩ | ⟨p, hp, hl, hr⟩
  · obtain ⟨kept, hkept, hl', hr'⟩ := dropHeader_pairs inside
    refine Or.inl ⟨kept, hkept.trans hinside, ?_, ?_⟩
    · rw [hl, ← hl']
      rfl
    · rw [hr, ← hr']
      rfl
  · refine Or.inr ⟨p, hp, ?_, ?_⟩
    · rw [hl]
      rfl
    · rw [hr]
      rfl

theorem SameOutcome.of_sublist {kept : List LinePair} (hkept : kept.Sublist pairs)
    {l r : Except LoadError Scenario}
    (h : SameOutcome (kept.map (·.left)) (kept.map (·.right)) l r) :
    SameOutcome (pairs.map (·.left)) (pairs.map (·.right)) l r := by
  -- The lines of a pair stand at one position in the shorter lists and at one in the longer ones.
  have hposition {position : Nat} {left right : NumberedLine}
      (hleft : (kept.map (·.left))[position]? = some left)
      (hright : (kept.map (·.right))[position]? = some right) : ∃ place : Nat,
        (pairs.map (·.left))[place]? = some left ∧ (pairs.map (·.right))[place]? = some right := by
    rw [List.getElem?_map, Option.map_eq_some_iff] at hleft hright
    obtain ⟨p, hp, rfl⟩ := hleft
    obtain ⟨p', hp', rfl⟩ := hright
    obtain rfl := Option.some.inj (hp.symm.trans hp')
    obtain ⟨place, hplace⟩ := List.getElem?_of_mem (hkept.subset (List.mem_of_getElem? hp))
    exact ⟨place, by simp [hplace], by simp [hplace]⟩
  cases h with
  | read s => exact .read s
  | unterminatedFence hleft hright =>
    obtain ⟨place, hleft, hright⟩ := hposition hleft hright
    exact .unterminatedFence hleft hright
  | malformed hleft hright defect =>
    obtain ⟨place, hleft, hright⟩ := hposition hleft hright
    exact .malformed hleft hright defect

theorem Scenario.sameOutcome_of_diagramLines
    (hleft : diagramLines document = .ok (pairs.map (·.left)))
    (hright : diagramLines other = .ok (pairs.map (·.right))) (key : ScenarioKey) (limit : Nat) :
    SameOutcome (pairs.map (·.left)) (pairs.map (·.right)) (Scenario.parse key document limit)
      (Scenario.parse key other limit) := by
  have htexts : (pairs.map (·.right)).map (·.text) = (pairs.map (·.left)).map (·.text) := by
    simp only [List.map_map, Function.comp_def, LinePair.text_eq]
  cases hread : Scenario.parse key document limit with
  | ok s =>
    obtain ⟨hkey, diagram, hdiagram, hreads⟩ := parse_eq_ok_iff.mp hread
    obtain rfl := Except.ok.inj (hleft.symm.trans hdiagram)
    have hother : Scenario.parse key other limit = .ok s := by
      rw [parse_eq_ok_iff]
      refine ⟨hkey, _, hright, ?_⟩
      rw [htexts]
      exact hreads
    rw [hother]
    exact .read s
  | error cause =>
    rcases parse_eq_error_iff.mp hread with hfence | ⟨diagram, raised, hdiagram, hfails, rfl⟩
    · rw [hleft] at hfence
      contradiction
    · obtain rfl := Except.ok.inj (hleft.symm.trans hdiagram)
      obtain ⟨position, defect, hposition, rfl⟩ := hfails.exists_position
      have hlengths : (pairs.map (·.right)).length = (pairs.map (·.left)).length := by
        rw [List.length_map, List.length_map]
      rw [List.length_map] at hposition
      have hl := List.getElem?_eq_getElem hposition
      have hr := List.getElem?_eq_getElem (hlengths ▸ hposition)
      have hother : Scenario.parse key other limit =
          .error (.parse (relocate (pairs.map (·.right)) (.onLine (position + 1) defect))) :=
        parse_eq_error_iff.mpr (Or.inr ⟨_, _, hright, htexts ▸ hfails, rfl⟩)
      rw [hother, (diagramEntry_of_getElem? hleft hl).relocate_eq,
        (diagramEntry_of_getElem? hright hr).relocate_eq]
      exact .malformed hl hr defect

end Counterparts

/-- What is read from a document does not depend on its layout. -/
theorem Scenario.parse_sameOutcome {document other : String}
    (h : (contentLines document).map (·.text) = (contentLines other).map (·.text))
    (key : ScenarioKey) (limit : Nat) :
    SameOutcome (contentLines document) (contentLines other) (Scenario.parse key document limit)
      (Scenario.parse key other limit) := by
  obtain ⟨pairs, hleft, hright⟩ := exists_linePairs h
  rcases diagramLines_pairs hleft hright with ⟨kept, hkept, hl, hr⟩ | ⟨p, hp, hl, hr⟩
  · rw [hleft, hright]
    exact (sameOutcome_of_diagramLines hl hr key limit).of_sublist hkept
  · have hread : Scenario.parse key document limit = .error (.unterminatedFence p.left.number) :=
      parse_eq_error_iff.mpr (Or.inl hl)
    have hother : Scenario.parse key other limit = .error (.unterminatedFence p.right.number) :=
      parse_eq_error_iff.mpr (Or.inl hr)
    obtain ⟨position, hposition⟩ := List.getElem?_of_mem hp
    have hl : (pairs.map (·.left))[position]? = some p.left := by
      rw [List.getElem?_map, hposition, Option.map_some]
    have hr : (pairs.map (·.right))[position]? = some p.right := by
      rw [List.getElem?_map, hposition, Option.map_some]
    rw [hread, hother, hleft, hright]
    exact .unterminatedFence hl hr

def spaciousDocument : String :=
  "T\r\n```\r\n\r\n  actor a AS A\r\n\r\n\ta ->> b : m \r\n```"

def compactDocument : String :=
  "T\n```\nactor a AS A\na ->> b : m\n```\n"

/-- The unknown entity is reported for the line that names it, in either layout. -/
theorem Scenario.parse_sameOutcome_unknownEntity :
    (contentLines spaciousDocument).map (·.text) = (contentLines compactDocument).map (·.text) ∧
    Scenario.parse ⟨"R", "U"⟩ spaciousDocument 32 =
      .error (.parse (.onLine 6 (.unknownEntity "b"))) ∧
    SameOutcome (contentLines spaciousDocument) (contentLines compactDocument)
      (.error (.parse (.onLine 6 (.unknownEntity "b"))))
      (.error (.parse (.onLine 4 (.unknownEntity "b")))) := by
  have hsame : (contentLines spaciousDocument).map (·.text) =
      (contentLines compactDocument).map (·.text) := by decide +kernel
  have hread : Scenario.parse ⟨"R", "U"⟩ spaciousDocument 32 =
      .error (.parse (.onLine 6 (.unknownEntity "b"))) := rfl
  have hother : Scenario.parse ⟨"R", "U"⟩ compactDocument 32 =
      .error (.parse (.onLine 4 (.unknownEntity "b"))) := rfl
  have houtcome := parse_sameOutcome hsame ⟨"R", "U"⟩ 32
  rw [hread, hother] at houtcome
  exact ⟨hsame, hread, houtcome⟩

end UseCaseFlow
