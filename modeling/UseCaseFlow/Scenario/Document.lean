import UseCaseFlow.Scenario.LoadError
import UseCaseFlow.Text.Lines
/-!
# Scenario documents

A document holds its diagram in the first fenced block, or is the diagram if it has no fence. The
diagram's lines keep their numbers in the document.
-/
namespace UseCaseFlow

open Text

/-- A trimmed line and its number in the document. -/
structure NumberedLine where
  number : Nat
  text : String
  deriving DecidableEq, Repr

def numberedLines (document : String) : List NumberedLine :=
  (lines document.toList).mapIdx fun i line => ⟨i + 1, String.ofList (trim line)⟩

def NumberedLine.isFence (line : NumberedLine) : Bool :=
  "```".toList.isPrefixOf line.text.toList

/-- The lines inside the first fenced block; all lines if there is no fence. -/
def fencedLines (document : List NumberedLine) : Except LoadError (List NumberedLine) :=
  match document.dropWhile (!·.isFence) with
  | [] => .ok document
  | fence :: rest =>
    if rest.any (·.isFence) then .ok (rest.takeWhile (!·.isFence))
    else .error (.unterminatedFence fence.number)

/-- Drops the line that names the kind of diagram. -/
def dropHeader : List NumberedLine → List NumberedLine
  | [] => []
  | line :: rest => if line.text = "sequenceDiagram" then rest else line :: rest

/-- The lines of the document's diagram that are not blank. -/
def diagramLines (document : String) : Except LoadError (List NumberedLine) := do
  let inside ← fencedLines (numberedLines document)
  return dropHeader (inside.filter (!·.text.isEmpty))

end UseCaseFlow
