import UseCaseFlow.Proofs.Scenario.Document

/-!
# Fenced diagrams

A diagram in the first fenced block of a document is read as it is read alone. Only the lines that
errors are reported for move, by the lines up to the fence. Without a second fence the document is
not read at all.
-/

namespace UseCaseFlow

/-- The same line in a document with `count` more lines in front. -/
def NumberedLine.behind (count : Nat) (line : NumberedLine) : NumberedLine :=
  ⟨line.number + count, line.text⟩

/-- The same error in a document with `count` more lines in front. -/
def LoadError.shifted (count : Nat) : LoadError → LoadError
  | .unterminatedFence line => .unterminatedFence (line + count)
  | .parse error => .parse (error.shifted count)
  | error => error

section Behind

theorem numberedBehind_add (number count : Nat) (texts : List String) :
    numberedBehind (number + count) texts =
      (numberedBehind number texts).map (·.behind count) := by
  induction texts generalizing number with
  | nil => rfl
  | cons line rest ih =>
    rw [numberedBehind, Nat.add_right_comm, ih, numberedBehind, List.map_cons]
    rfl

theorem dropHeader_behind (count : Nat) (inside : List NumberedLine) :
    dropHeader ((inside.map (·.behind count)).filter (!·.text.isEmpty)) =
      (dropHeader (inside.filter (!·.text.isEmpty))).map (·.behind count) := by
  have hfilter : (inside.map (·.behind count)).filter (!·.text.isEmpty) =
      (inside.filter (!·.text.isEmpty)).map (·.behind count) := List.filter_map
  rw [hfilter]
  cases inside.filter (!·.text.isEmpty) with
  | nil => rfl
  | cons line rest =>
    by_cases hheader : line.text = "sequenceDiagram"
    · simp only [List.map_cons, dropHeader, NumberedLine.behind, if_pos hheader]
    · simp only [List.map_cons, dropHeader, NumberedLine.behind, if_neg hheader]

theorem SameOutcome.eq_mapError {diagram : List NumberedLine} {count : Nat}
    {l r : Except LoadError Scenario}
    (h : SameOutcome diagram (diagram.map (·.behind count)) l r) :
    r = l.mapError (·.shifted count) := by
  have hbehind {position : Nat} {left right : NumberedLine} (hleft : diagram[position]? = some left)
      (hright : (diagram.map (·.behind count))[position]? = some right) :
      right = left.behind count := by
    rw [List.getElem?_map, hleft] at hright
    exact (Option.some.inj hright).symm
  cases h with
  | read s => rfl
  | unterminatedFence hleft hright =>
    rw [hbehind hleft hright]
    rfl
  | malformed hleft hright defect =>
    rw [hbehind hleft hright]
    rfl

/-- A diagram that stands `count` lines further down is read alike. -/
theorem Scenario.parse_behind {document diagram : String} {shown : List NumberedLine} {count : Nat}
    (hdiagram : diagramLines diagram = .ok shown)
    (hdocument : diagramLines document = .ok (shown.map (·.behind count))) (key : ScenarioKey)
    (limit : Nat) : Scenario.parse key document limit =
      (Scenario.parse key diagram limit).mapError (·.shifted count) := by
  have htexts : shown.map (·.text) = (shown.map (·.behind count)).map (·.text) := by
    rw [List.map_map]
    rfl
  obtain ⟨pairs, hleft, hright⟩ := exists_linePairs htexts
  have hsame : SameOutcome shown (shown.map (·.behind count)) (Scenario.parse key diagram limit)
      (Scenario.parse key document limit) := by
    rw [hright] at hdocument
    rw [hright, hleft]
    exact sameOutcome_of_diagramLines (hleft ▸ hdiagram) hdocument key limit
  exact hsame.eq_mapError

end Behind

/-- Reading the diagram of a fenced block is reading its lines alone, with errors for the lines of
the document. A block that is not closed is reported for the fence that opens it. -/
theorem Scenario.parse_fenced {before inside after : List String} {opener closer : String}
    {document diagram opened : String} (hbefore : ∀ line ∈ before, isFenceLine line = false)
    (hopener : isFenceLine opener = true) (hinside : ∀ line ∈ inside, isFenceLine line = false)
    (hcloser : isFenceLine closer = true)
    (hdocument : MadeOf (before ++ opener :: (inside ++ closer :: after)) document)
    (hdiagram : MadeOf inside diagram) (hopened : MadeOf (before ++ opener :: inside) opened)
    (key : ScenarioKey) (limit : Nat) :
    Scenario.parse key document limit =
        (Scenario.parse key diagram limit).mapError (·.shifted (before.length + 1)) ∧
      Scenario.parse key opened limit = .error (.unterminatedFence (before.length + 1)) := by
  constructor
  · have halone : diagramLines diagram =
        .ok (dropHeader ((numberedBehind 0 inside).filter (!·.text.isEmpty))) := by
      rw [hdiagram.diagramLines_eq, fencedLines_of_noFence (isFence_numberedBehind hinside 0)]
      rfl
    apply parse_behind halone
    rw [hdocument.diagramLines_eq, fencedLines_block hbefore hopener hinside hcloser,
      ← Nat.zero_add (before.length + 1), numberedBehind_add, Nat.zero_add, map_ok,
      dropHeader_behind]
  · rw [parse_eq_error_iff, hopened.diagramLines_eq, fencedLines_open hbefore hopener hinside]
    exact Or.inl rfl

def blockLines : List String :=
  ["sequenceDiagram", "actor a AS A", "a ->> b : m"]

def openLines : List String :=
  ["# T"] ++ " ```mermaid" :: blockLines

def blockDocumentLines : List String :=
  ["# T"] ++ " ```mermaid" :: (blockLines ++ "```" :: ["b", "```"])

/-- The unknown entity is reported two lines further down, behind the title and the fence. -/
theorem Scenario.parse_fenced_unknownEntity :
    Scenario.parse ⟨"R", "U"⟩ ("\n".intercalate blockDocumentLines ++ "\n") 32 =
        .error (.parse (.onLine 5 (.unknownEntity "b"))) ∧
      Scenario.parse ⟨"R", "U"⟩ ("\n".intercalate openLines ++ "\n") 32 =
        .error (.unterminatedFence 2) := by
  have hbefore : ∀ line ∈ ["# T"], isFenceLine line = false := by decide
  have hopener : isFenceLine " ```mermaid" = true := by decide
  have hinside : ∀ line ∈ blockLines, isFenceLine line = false := by decide
  have hcloser : isFenceLine "```" = true := by decide
  have hdocument : MadeOf blockDocumentLines ("\n".intercalate blockDocumentLines ++ "\n") :=
    .intercalate (by decide) (by decide) (Or.inr rfl)
  have hdiagram : MadeOf blockLines ("\n".intercalate blockLines ++ "\n") :=
    .intercalate (by decide) (by decide) (Or.inr rfl)
  have hopened : MadeOf openLines ("\n".intercalate openLines ++ "\n") :=
    .intercalate (by decide) (by decide) (Or.inr rfl)
  have halone : Scenario.parse ⟨"R", "U"⟩ ("\n".intercalate blockLines ++ "\n") 32 =
      .error (.parse (.onLine 3 (.unknownEntity "b"))) := rfl
  have hfenced := parse_fenced hbefore hopener hinside hcloser hdocument hdiagram hopened
    ⟨"R", "U"⟩ 32
  rw [halone] at hfenced
  exact hfenced

end UseCaseFlow
