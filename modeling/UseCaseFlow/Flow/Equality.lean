import UseCaseFlow.Flow.Basic
/-!
# Equality of flows

Two flows are equal if they have equal steps in the same order. The branches of a fork are compared
by their conditions, so their order does not matter.
-/
namespace UseCaseFlow

mutual
def Step.same : Step → Step → Bool
  | .interaction left, .interaction right => left == right
  | .loop condition body, .loop condition' body' =>
    condition == condition' && Flow.same body body'
  | .fork left, .fork right => left.length == right.length && Flow.branchesWithin left right
  | _, _ => false

/-- Whether the flows are equal up to the order of branches. -/
def Flow.same : Flow → Flow → Bool
  | [], [] => true
  | step :: rest, step' :: rest' => step.same step' && Flow.same rest rest'
  | _, _ => false

/-- Whether every branch on the left has an equal branch on the right. -/
def Flow.branchesWithin : List (Branch Step) → List (Branch Step) → Bool
  | [], _ => true
  | b :: rest, right =>
    (match findBranch? b.condition right with
      | some b' => Flow.same b.steps b'.steps
      | none => false) && Flow.branchesWithin rest right
end

end UseCaseFlow
