import UseCaseFlow.Proofs.Diagram.Declaration
import UseCaseFlow.Proofs.Diagram.FirstDefect
import UseCaseFlow.Proofs.Scenario.Parse

/-!
# Where errors are reported

The lines of a diagram keep the order and the numbers that they have in the document. An error that
is raised for one of them is reported for that line of the document, and nothing else is changed.
-/

namespace UseCaseFlow

open Text

section Numbering

variable {document : String} {diagram : List NumberedLine}

theorem mem_numberedLines_iff {line : NumberedLine} :
    line ∈ numberedLines document ↔ ∃ i source, (lines document.toList)[i]? = some source ∧
      line = ⟨i + 1, String.ofList (trim source)⟩ := by
  rw [numberedLines, List.mem_mapIdx]
  constructor
  · rintro ⟨i, hi, rfl⟩
    exact ⟨i, _, List.getElem?_eq_getElem hi, rfl⟩
  · rintro ⟨i, source, hsource, rfl⟩
    obtain ⟨hi, rfl⟩ := List.getElem?_eq_some_iff.mp hsource
    exact ⟨i, hi, rfl⟩

theorem pairwise_numberedLines (document : String) :
    (numberedLines document).Pairwise fun a b => a.number < b.number := by
  rw [List.pairwise_iff_getElem]
  intro i j hi hj hij
  simp only [numberedLines, List.getElem_mapIdx]
  omega

theorem fencedLines_sublist {all inside : List NumberedLine} (h : fencedLines all = .ok inside) :
    inside.Sublist all := by
  rw [fencedLines] at h
  cases hdrop : all.dropWhile (!·.isFence) with
  | nil =>
    rw [hdrop] at h
    rw [Except.ok.inj h]
  | cons fence rest =>
    have hrest : (fence :: rest).Sublist all := hdrop ▸ List.dropWhile_sublist _
    simp only [hdrop] at h
    split at h
    · rw [← Except.ok.inj h]
      exact (List.takeWhile_sublist _).trans ((List.sublist_cons_self fence rest).trans hrest)
    · contradiction

theorem dropHeader_sublist (all : List NumberedLine) : (dropHeader all).Sublist all := by
  cases all with
  | nil => exact .slnil
  | cons line rest =>
    rw [dropHeader]
    split
    · exact List.sublist_cons_self line rest
    · exact .refl _

theorem diagramLines_sublist (h : diagramLines document = .ok diagram) :
    diagram.Sublist (numberedLines document) := by
  rw [diagramLines, bind_eq_ok_iff] at h
  obtain ⟨inside, hinside, h⟩ := h
  obtain rfl := Except.ok.inj h
  have hfilter : (inside.filter (!·.text.isEmpty)).Sublist inside := List.filter_sublist
  exact (dropHeader_sublist _).trans (hfilter.trans (fencedLines_sublist hinside))

theorem add_le_number {least position : Nat} {line : NumberedLine}
    (hascending : diagram.Pairwise fun a b => a.number < b.number)
    (hleast : ∀ l ∈ diagram, least ≤ l.number) (hline : diagram[position]? = some line) :
    least + position ≤ line.number := by
  induction diagram generalizing least position with
  | nil => contradiction
  | cons first rest ih =>
    rw [List.pairwise_cons] at hascending
    cases position with
    | zero =>
      obtain rfl := Option.some.inj hline
      exact hleast first List.mem_cons_self
    | succ position =>
      have hfirst := hleast first List.mem_cons_self
      have hrest : ∀ l ∈ rest, least + 1 ≤ l.number := by
        intro l hl
        have hlt := hascending.1 l hl
        omega
      have hle := ih hascending.2 hrest hline
      omega

/-- The line at the position of the diagram is a line of the document without the blanks around it,
under its number there. No other position has that number, which is larger than the position. -/
structure DiagramEntry (document : String) (diagram : List NumberedLine) (position : Nat)
    (line : NumberedLine) : Prop where
  entry : diagram[position]? = some line
  unique : ∀ position' line', diagram[position']? = some line' → line'.number = line.number →
    position' = position
  position_lt : position < line.number
  number_le : line.number ≤ (lines document.toList).length
  text : ((lines document.toList)[line.number - 1]?).map (String.ofList ∘ trim) = some line.text

theorem diagramEntry_of_getElem? (h : diagramLines document = .ok diagram) {position : Nat}
    {line : NumberedLine} (hline : diagram[position]? = some line) :
    DiagramEntry document diagram position line := by
  have hsublist := diagramLines_sublist h
  have hascending := (pairwise_numberedLines document).sublist hsublist
  have hpositive : ∀ l ∈ diagram, 1 ≤ l.number := by
    intro l hl
    obtain ⟨i, source, -, rfl⟩ := mem_numberedLines_iff.mp (hsublist.subset hl)
    exact Nat.succ_pos i
  have hnumbers : (diagram.map (·.number)).Nodup := by
    rw [List.Nodup, List.pairwise_map]
    exact hascending.imp Nat.ne_of_lt
  have hle := add_le_number hascending hpositive hline
  obtain ⟨i, source, hsource, rfl⟩ :=
    mem_numberedLines_iff.mp (hsublist.subset (List.mem_of_getElem? hline))
  obtain ⟨hi, -⟩ := List.getElem?_eq_some_iff.mp hsource
  refine ⟨hline, ?_, ?_, hi, ?_⟩
  · intro position' line' hline' hnumber
    obtain ⟨hlt, -⟩ := List.getElem?_eq_some_iff.mp hline'
    have hlt' : position' < (diagram.map (·.number)).length := by simpa using hlt
    apply (List.getElem?_inj hlt' hnumbers).mp
    simp [hline, hline', hnumber]
  · show position < i + 1
    change 1 + position ≤ i + 1 at hle
    omega
  · simp [hsource]

example : diagramLines "# Title\n\n```\nsequenceDiagram\nactor a AS A\n\n  a ->> b : m\n```\n" =
    .ok [⟨5, "actor a AS A"⟩, ⟨7, "a ->> b : m"⟩] :=
  rfl

theorem DiagramEntry.relocate_eq {position : Nat} {line : NumberedLine}
    (h : DiagramEntry document diagram position line) (defect : Defect) :
    relocate diagram (.onLine (position + 1) defect) = .onLine line.number defect := by
  have hlt := h.position_lt
  have hnumber : position + 1 + (line.number - (position + 1)) = line.number := by omega
  simp only [relocate, h.entry, ParseError.shifted, hnumber]

theorem ne_parse_of_diagramLines {cause : LoadError} (h : diagramLines document = .error cause)
    (e : ParseError) : cause ≠ .parse e := by
  rw [diagramLines, bind_eq_error_iff] at h
  rcases h with h | ⟨inside, -, h⟩
  · rw [fencedLines] at h
    split at h
    · contradiction
    · split at h
      · contradiction
      · obtain rfl := Except.error.inj h
        exact nofun
  · contradiction

end Numbering

/-- The error that the readers raise for the lines of a diagram. Lines are counted from the first
one of the diagram. -/
inductive DiagramFails (limit : Nat) (lines : List String) : ParseError → Prop
  | declaration {cause : ParseError} (h : parseDeclarations lines = .error cause) :
      DiagramFails limit lines cause
  | step {entities : List Entity} {cause : ParseError}
      (hentities : parseDeclarations lines = .ok entities)
      (hsteps : lines.drop entities.length ≠ [])
      (h : parseSequence entities (lines.drop entities.length) limit = .error cause) :
      DiagramFails limit lines (cause.shifted entities.length)

/-- What the readers make of the lines of a diagram. Without step lines only the declarations are
read. -/
inductive DiagramReads (limit : Nat) (lines : List String) (entities : List Entity) : Flow → Prop
  | declarations (hentities : parseDeclarations lines = .ok entities)
      (hsteps : lines.drop entities.length = []) : DiagramReads limit lines entities []
  | steps {flow : Flow} (hentities : parseDeclarations lines = .ok entities)
      (hsteps : lines.drop entities.length ≠ [])
      (h : parseSequence entities (lines.drop entities.length) limit = .ok flow) :
      DiagramReads limit lines entities flow

section Diagram

variable {limit : Nat} {lines : List String}

theorem DiagramFails.exists_position {cause : ParseError} (h : DiagramFails limit lines cause) :
    ∃ position defect, position < lines.length ∧ cause = .onLine (position + 1) defect := by
  cases h with
  | declaration h =>
    obtain ⟨declared, line, rest, rfl, -, -, -, rfl⟩ := parseDeclarationsFrom_eq_error_iff.mp h
    refine ⟨declared.length, _, by simp, by rw [Nat.zero_add]⟩
  | @step entities cause hentities hsteps h =>
    rcases parseSequence_eq_error_iff.mp h with ⟨hnil, -⟩ |
      ⟨before, line, after, defect, hlines, rfl, -⟩
    · contradiction
    · have hlength := congrArg List.length hlines
      rw [List.length_drop, List.length_append, List.length_cons] at hlength
      refine ⟨before.length + entities.length, defect, by omega, ?_⟩
      simp only [ParseError.shifted, ParseError.onLine.injEq, and_true]
      omega

theorem diagramReads_iff {entities : List Entity} {flow : Flow} :
    DiagramReads limit lines entities flow ↔ parseDeclarations lines = .ok entities ∧
      FlowLines entities limit (lines.drop entities.length) flow := by
  constructor
  · intro h
    cases h with
    | declarations hentities hsteps => exact ⟨hentities, hsteps ▸ .nil⟩
    | steps hentities hsteps h => exact ⟨hentities, (flowLines_of_parseSequence h).2⟩
  · rintro ⟨hentities, h⟩
    by_cases hsteps : lines.drop entities.length = []
    · rw [hsteps, flowLines_nil_left] at h
      rw [h]
      exact .declarations hentities hsteps
    · have hne : flow ≠ [] := by
        rintro rfl
        exact hsteps (flowLines_nil_right.mp h)
      exact .steps hentities hsteps (parseSequence_of_flowLines hne h)

end Diagram

/-- Loading fails without a diagram, or with an error of the diagram's lines, relocated. -/
theorem Scenario.parse_eq_error_iff {key : ScenarioKey} {document : String} {limit : Nat}
    {cause : LoadError} : Scenario.parse key document limit = .error cause ↔
      diagramLines document = .error cause ∨ ∃ diagram raised, diagramLines document = .ok diagram ∧
        DiagramFails limit (diagram.map (·.text)) raised ∧
        cause = .parse (relocate diagram raised) := by
  simp only [Scenario.parse, bind_eq_error_iff, mapError_eq_error_iff, mapError_eq_ok_iff]
  apply or_congr_right
  constructor
  · rintro ⟨diagram, hdiagram, ⟨raised, h, rfl⟩ | ⟨entities, hentities, h⟩⟩
    · exact ⟨diagram, raised, hdiagram, .declaration h, rfl⟩
    · by_cases hsteps : ((diagram.map (·.text)).drop entities.length).isEmpty = true
      · rw [if_pos hsteps] at h
        contradiction
      · rw [if_neg hsteps] at h
        simp only [bind_eq_error_iff, mapError_eq_error_iff, pure_ne_error, and_false,
          exists_false, or_false] at h
        obtain ⟨raised, h, rfl⟩ := h
        rw [List.isEmpty_iff] at hsteps
        exact ⟨diagram, _, hdiagram, .step hentities hsteps h, rfl⟩
  · rintro ⟨diagram, raised, hdiagram, h, rfl⟩
    refine ⟨diagram, hdiagram, ?_⟩
    cases h with
    | declaration h => exact Or.inl ⟨raised, h, rfl⟩
    | @step entities raised hentities hsteps h =>
      rw [ne_eq, ← List.isEmpty_iff] at hsteps
      refine Or.inr ⟨entities, hentities, ?_⟩
      rw [if_neg hsteps, bind_eq_error_iff, mapError_eq_error_iff]
      exact Or.inl ⟨raised, h, rfl⟩

/-- A parse error is that of a line of the diagram, under the number of that line in the document;
and a scenario is read exactly if the readers of the diagram's lines succeed. -/
theorem Scenario.parse_outcome_iff (key : ScenarioKey) (document : String) (limit : Nat) :
    (∀ e, Scenario.parse key document limit = .error (.parse e) ↔
      ∃ diagram position line defect, diagramLines document = .ok diagram ∧
        DiagramEntry document diagram position line ∧
        DiagramFails limit (diagram.map (·.text)) (.onLine (position + 1) defect) ∧
        e = .onLine line.number defect) ∧
    ∀ s, Scenario.parse key document limit = .ok s ↔ s.key = key ∧
      ∃ diagram, diagramLines document = .ok diagram ∧
        DiagramReads limit (diagram.map (·.text)) s.entities s.flow := by
  constructor
  · intro e
    rw [parse_eq_error_iff]
    constructor
    · rintro (h | ⟨diagram, raised, hdiagram, h, he⟩)
      · exact absurd rfl (ne_parse_of_diagramLines h e)
      · obtain ⟨position, defect, hposition, rfl⟩ := h.exists_position
        rw [List.length_map] at hposition
        have hentry := diagramEntry_of_getElem? hdiagram (List.getElem?_eq_getElem hposition)
        rw [hentry.relocate_eq, LoadError.parse.injEq] at he
        exact ⟨diagram, position, _, defect, hdiagram, hentry, h, he⟩
    · rintro ⟨diagram, position, line, defect, hdiagram, hentry, h, rfl⟩
      exact Or.inr ⟨diagram, _, hdiagram, h, by rw [hentry.relocate_eq]⟩
  · intro s
    simp only [parse_eq_ok_iff, diagramReads_iff]

end UseCaseFlow
