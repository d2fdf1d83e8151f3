import UseCaseFlow.Scenario.Basic
/-!
# Reports

One row of metrics for each scenario, ordered by key. Rows of equal key keep the order in which the
scenarios were given.
-/
namespace UseCaseFlow

structure ReportRow where
  key : ScenarioKey
  metrics : Metrics
  deriving DecidableEq, Repr

structure Report where
  rows : List ReportRow
  deriving DecidableEq, Repr

def Scenario.row (s : Scenario) : ReportRow :=
  ⟨s.key, s.metrics⟩

def ReportRow.notAfter (a b : ReportRow) : Bool :=
  (a.key.order b.key).isLE

def Report.ofScenarios (scenarios : List Scenario) : Report where
  rows := (scenarios.map Scenario.row).mergeSort ReportRow.notAfter

end UseCaseFlow
