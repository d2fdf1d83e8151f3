import Mathlib.Algebra.GroupWithZero.Nat
import UseCaseFlow.Proofs.Flow.Shape

/-!
# All steps of a flow

The steps of a flow together with those inside of them, in the order in which a diagram lists them,
and how many loops, forks and branches there are.
-/

namespace UseCaseFlow

mutual

def Step.allSteps : Step → List Step
  | .interaction message => [.interaction message]
  | .loop condition body => .loop condition body :: Flow.allSteps body
  | .fork branches => .fork branches :: Flow.branchSteps branches

def Flow.allSteps : Flow → List Step
  | [] => []
  | step :: rest => step.allSteps ++ Flow.allSteps rest

def Flow.branchSteps : List (Branch Step) → List Step
  | [] => []
  | b :: rest => Flow.allSteps b.steps ++ Flow.branchSteps rest

end

def Step.isLoop : Step → Bool
  | .loop _ _ => true
  | _ => false

def Step.isFork : Step → Bool
  | .fork _ => true
  | _ => false

def Step.branchCount : Step → Nat
  | .fork branches => branches.length
  | _ => 0

def Flow.loopCount (flow : Flow) : Nat :=
  (Flow.allSteps flow).countP Step.isLoop

def Flow.forkCount (flow : Flow) : Nat :=
  (Flow.allSteps flow).countP Step.isFork

def Flow.branchCount (flow : Flow) : Nat :=
  ((Flow.allSteps flow).map Step.branchCount).sum

theorem Flow.branchSteps_eq_flatMap (branches : List (Branch Step)) :
    Flow.branchSteps branches = branches.flatMap fun b => Flow.allSteps b.steps := by
  induction branches with
  | nil => rfl
  | cons b rest ih => rw [branchSteps, ih, List.flatMap_cons]

variable (rest : Flow)

@[simp] theorem Flow.allSteps_nil : Flow.allSteps [] = [] := rfl

@[simp] theorem Flow.allSteps_interaction (message : Interaction) :
    Flow.allSteps (.interaction message :: rest) = .interaction message :: Flow.allSteps rest := rfl

@[simp] theorem Flow.allSteps_loop (condition : String) (body : Flow) :
    Flow.allSteps (.loop condition body :: rest) =
      .loop condition body :: (Flow.allSteps body ++ Flow.allSteps rest) := rfl

@[simp] theorem Flow.allSteps_fork (branches : List (Branch Step)) :
    Flow.allSteps (.fork branches :: rest) =
      .fork branches :: ((branches.flatMap fun b => Flow.allSteps b.steps) ++
        Flow.allSteps rest) := by
  rw [allSteps, Step.allSteps, branchSteps_eq_flatMap, List.cons_append]

theorem Flow.WellFormed.of_mem_allSteps {flow : Flow} (h : Flow.WellFormed flow) :
    ∀ step ∈ Flow.allSteps flow, step.WellFormed := by
  induction flow using Flow.induction with
  | nil => simp
  | interaction message rest ih =>
    rw [allSteps_interaction, List.forall_mem_cons]
    exact ⟨trivial, ih h.2⟩
  | loop condition body rest ihbody ihrest =>
    rw [allSteps_loop, List.forall_mem_cons, List.forall_mem_append]
    exact ⟨h.1, ihbody h.1.2, ihrest h.2⟩
  | fork branches rest ihbranches ihrest =>
    rw [allSteps_fork, List.forall_mem_cons, List.forall_mem_append, List.forall_mem_flatMap]
    have hbranches := Flow.wellFormedBranches_iff.mp h.1.2.2
    exact ⟨h.1, fun b hb => ihbranches b hb (hbranches b hb).2, ihrest h.2⟩

end UseCaseFlow
