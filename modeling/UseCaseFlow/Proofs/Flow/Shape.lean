import UseCaseFlow.Flow.Basic

/-!
# The shape of a flow

How deep the blocks of a flow are nested, and which conditions it holds.
-/

namespace UseCaseFlow

mutual

def Step.depth : Step → Nat
  | .interaction _ => 0
  | .loop _ body => Flow.depth body + 1
  | .fork branches => Flow.branchDepth branches + 1

/-- The number of blocks around the most deeply nested step. -/
def Flow.depth : Flow → Nat
  | [] => 0
  | step :: rest => max step.depth (Flow.depth rest)

def Flow.branchDepth : List (Branch Step) → Nat
  | [] => 0
  | b :: rest => max (Flow.depth b.steps) (Flow.branchDepth rest)

end

mutual

def Step.conditions : Step → List String
  | .interaction _ => []
  | .loop condition body => condition :: Flow.conditions body
  | .fork branches => Flow.branchConditions branches

/-- The conditions of all loops and branches, in the order in which a diagram lists them. -/
def Flow.conditions : Flow → List String
  | [] => []
  | step :: rest => step.conditions ++ Flow.conditions rest

def Flow.branchConditions : List (Branch Step) → List String
  | [] => []
  | b :: rest => b.condition :: Flow.conditions b.steps ++ Flow.branchConditions rest

end

theorem Flow.depth_cons_le {step : Step} {rest : Flow} {budget : Nat} :
    Flow.depth (step :: rest) ≤ budget ↔ step.depth ≤ budget ∧ Flow.depth rest ≤ budget := by
  rw [Flow.depth, Nat.max_le]

theorem Flow.branchDepth_le {branches : List (Branch Step)} {budget : Nat} :
    Flow.branchDepth branches ≤ budget ↔ ∀ b ∈ branches, Flow.depth b.steps ≤ budget := by
  induction branches with
  | nil => simp [branchDepth]
  | cons b rest ih => rw [branchDepth, Nat.max_le, ih, List.forall_mem_cons]

section Interactions

theorem Flow.branchInteractions_eq_flatMap (branches : List (Branch Step)) :
    Flow.branchInteractions branches = branches.flatMap fun b => Flow.interactions b.steps := by
  induction branches with
  | nil => rfl
  | cons b rest ih => rw [branchInteractions, ih, List.flatMap_cons]

variable (rest : Flow)

@[simp] theorem Flow.interactions_nil : Flow.interactions [] = [] := rfl

@[simp] theorem Flow.interactions_interaction (message : Interaction) :
    Flow.interactions (.interaction message :: rest) = message :: Flow.interactions rest := rfl

@[simp] theorem Flow.interactions_loop (condition : String) (body : Flow) :
    Flow.interactions (.loop condition body :: rest) =
      Flow.interactions body ++ Flow.interactions rest := rfl

@[simp] theorem Flow.interactions_fork (branches : List (Branch Step)) :
    Flow.interactions (.fork branches :: rest) =
      (branches.flatMap fun b => Flow.interactions b.steps) ++ Flow.interactions rest := by
  rw [interactions, Step.interactions, branchInteractions_eq_flatMap]

theorem Flow.forall_interactions_fork {P : Interaction → Prop} {branches : List (Branch Step)} :
    (∀ m ∈ Flow.interactions (.fork branches :: rest), P m) ↔
      (∀ b ∈ branches, ∀ m ∈ Flow.interactions b.steps, P m) ∧
        ∀ m ∈ Flow.interactions rest, P m := by
  rw [interactions_fork, List.forall_mem_append, List.forall_mem_flatMap]

end Interactions

section Conditions

theorem Flow.branchConditions_eq_flatMap (branches : List (Branch Step)) :
    Flow.branchConditions branches =
      branches.flatMap fun b => b.condition :: Flow.conditions b.steps := by
  induction branches with
  | nil => rfl
  | cons b rest ih => rw [branchConditions, ih, List.flatMap_cons]

variable (rest : Flow)

@[simp] theorem Flow.conditions_nil : Flow.conditions [] = [] := rfl

@[simp] theorem Flow.conditions_interaction (message : Interaction) :
    Flow.conditions (.interaction message :: rest) = Flow.conditions rest := rfl

@[simp] theorem Flow.conditions_loop (condition : String) (body : Flow) :
    Flow.conditions (.loop condition body :: rest) =
      condition :: Flow.conditions body ++ Flow.conditions rest := rfl

@[simp] theorem Flow.conditions_fork (branches : List (Branch Step)) :
    Flow.conditions (.fork branches :: rest) =
      (branches.flatMap fun b => b.condition :: Flow.conditions b.steps) ++
        Flow.conditions rest := by
  rw [conditions, Step.conditions, branchConditions_eq_flatMap]

theorem Flow.forall_conditions_fork {P : String → Prop} {branches : List (Branch Step)} :
    (∀ c ∈ Flow.conditions (.fork branches :: rest), P c) ↔
      (∀ b ∈ branches, P b.condition ∧ ∀ c ∈ Flow.conditions b.steps, P c) ∧
        ∀ c ∈ Flow.conditions rest, P c := by
  simp only [conditions_fork, List.forall_mem_append, List.forall_mem_flatMap,
    List.forall_mem_cons]

end Conditions

theorem Flow.wellFormedBranches_iff {branches : List (Branch Step)} :
    Flow.WellFormedBranches branches ↔
      ∀ b ∈ branches, b.steps ≠ [] ∧ Flow.WellFormed b.steps := by
  induction branches with
  | nil => simp [WellFormedBranches]
  | cons b rest ih => rw [WellFormedBranches, ih, List.forall_mem_cons]

mutual

def Step.decidableWellFormed : (step : Step) → Decidable step.WellFormed
  | .interaction _ => isTrue trivial
  | .loop _ body =>
    have := Flow.decidableWellFormed body
    inferInstanceAs (Decidable (body ≠ [] ∧ Flow.WellFormed body))
  | .fork branches =>
    have := Flow.decidableWellFormedBranches branches
    inferInstanceAs (Decidable (branches ≠ [] ∧ (branches.map (·.condition)).Nodup ∧
      Flow.WellFormedBranches branches))

def Flow.decidableWellFormed : (flow : Flow) → Decidable (Flow.WellFormed flow)
  | [] => isTrue trivial
  | step :: rest =>
    have := step.decidableWellFormed
    have := Flow.decidableWellFormed rest
    inferInstanceAs (Decidable (step.WellFormed ∧ Flow.WellFormed rest))

def Flow.decidableWellFormedBranches : (branches : List (Branch Step)) →
    Decidable (Flow.WellFormedBranches branches)
  | [] => isTrue trivial
  | b :: rest =>
    have := Flow.decidableWellFormed b.steps
    have := Flow.decidableWellFormedBranches rest
    inferInstanceAs (Decidable ((b.steps ≠ [] ∧ Flow.WellFormed b.steps) ∧
      Flow.WellFormedBranches rest))

end

instance (flow : Flow) : Decidable (Flow.WellFormed flow) :=
  Flow.decidableWellFormed flow

end UseCaseFlow
