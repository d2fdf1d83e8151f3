import UseCaseFlow.Diagram.Declaration
import UseCaseFlow.Diagram.Sequence
import UseCaseFlow.Flow.Equality
import UseCaseFlow.Metrics
import UseCaseFlow.Scenario.Document
import UseCaseFlow.Scenario.Key
/-!
# Scenarios

A scenario is its key, its declared entities and its flow. The flow is empty if the document only
declares entities. Errors of the diagram are reported for the document's own lines.
-/
namespace UseCaseFlow

structure Scenario where
  key : ScenarioKey
  entities : List Entity
  flow : Flow

/-- Moves an error from a line of the diagram to that line's number in the document. -/
def relocate (diagram : List NumberedLine) : ParseError → ParseError
  | .onLine (position + 1) defect =>
    match diagram[position]? with
    | some line => (ParseError.onLine (position + 1) defect).shifted (line.number - (position + 1))
    | none => .onLine (position + 1) defect
  | e => e

def Scenario.parse (key : ScenarioKey) (document : String) (limit : Nat := defaultNestingLimit) :
    Except LoadError Scenario := do
  let diagram ← diagramLines document
  let lines := diagram.map (·.text)
  let entities ← (parseDeclarations lines).mapError fun e => .parse (relocate diagram e)
  let steps := lines.drop entities.length
  if steps.isEmpty then return { key, entities, flow := [] }
  let flow ← (parseSequence entities steps limit).mapError fun e =>
    .parse (relocate diagram (e.shifted entities.length))
  return { key, entities, flow }

def Scenario.metrics (s : Scenario) : Metrics :=
  Metrics.of s.entities s.flow

/-- Whether the scenarios are equal up to the order of branches. -/
def Scenario.same (a b : Scenario) : Bool :=
  a.key == b.key && a.entities == b.entities && a.flow.same b.flow

end UseCaseFlow
