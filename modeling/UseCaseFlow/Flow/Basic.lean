/-!
# Flows

A flow is a list of steps: an interaction, a loop around a flow, or a fork into flows of which one
is taken. A well-formed flow has at least one step at every level, and the branches of a fork have
different conditions.
-/
namespace UseCaseFlow

/-- A message from one entity to another, both given by their positions. -/
structure Interaction where
  source : Nat
  target : Nat
  /-- Whether the message is a call that returns. -/
  returns : Bool
  label : String
  deriving DecidableEq, Repr

structure Branch (Step : Type) where
  condition : String
  steps : List Step
  deriving DecidableEq, Repr

def findBranch? {Step : Type} (condition : String) (branches : List (Branch Step)) :
    Option (Branch Step) :=
  branches.find? (·.condition == condition)

inductive Step where
  | interaction (message : Interaction)
  | loop (condition : String) (body : List Step)
  | fork (branches : List (Branch Step))

abbrev Flow := List Step

/-- A fork into the branches, if there are any. -/
def Step.fork? (branches : List (Branch Step)) : Option Step :=
  if branches.isEmpty then none else some (.fork branches)

/-- Induction on a flow by its first step, with the flows inside that step. -/
@[elab_as_elim]
theorem Flow.induction {P : Flow → Prop} (nil : P [])
    (interaction : ∀ message rest, P rest → P (.interaction message :: rest))
    (loop : ∀ condition body rest, P body → P rest → P (.loop condition body :: rest))
    (fork : ∀ branches rest, (∀ b ∈ branches, P b.steps) → P rest → P (.fork branches :: rest))
    (flow : Flow) : P flow := by
  refine Step.rec_1 (motive_1 := fun step => ∀ rest, P rest → P (step :: rest)) (motive_2 := P)
    (motive_3 := fun branches => ∀ b ∈ branches, P b.steps) (motive_4 := fun b => P b.steps)
    interaction ?_ ?_ nil ?_ ?_ ?_ ?_ flow
  · exact fun condition body hbody rest hrest => loop condition body rest hbody hrest
  · exact fun branches hbranches rest hrest => fork branches rest hbranches hrest
  · exact fun step rest hstep hrest => hstep rest hrest
  · simp
  · intro b rest hb hrest
    simpa using ⟨hb, hrest⟩
  · exact fun _ _ h => h

mutual
/-- The interactions of a step, in the order in which a diagram lists them. -/
def Step.interactions : Step → List Interaction
  | .interaction message => [message]
  | .loop _ body => Flow.interactions body
  | .fork branches => Flow.branchInteractions branches

def Flow.interactions : Flow → List Interaction
  | [] => []
  | step :: rest => step.interactions ++ Flow.interactions rest

def Flow.branchInteractions : List (Branch Step) → List Interaction
  | [] => []
  | b :: rest => Flow.interactions b.steps ++ Flow.branchInteractions rest
end

mutual
/-- The interaction that ends the step: a loop ends with its body, a fork with its first branch. -/
def Step.last? : Step → Option Interaction
  | .interaction message => some message
  | .loop _ body => Flow.lastInteraction? body
  | .fork branches => Flow.lastOfFirst? branches

def Flow.lastInteraction? : Flow → Option Interaction
  | [] => none
  | [step] => step.last?
  | _ :: step :: rest => Flow.lastInteraction? (step :: rest)

def Flow.lastOfFirst? : List (Branch Step) → Option Interaction
  | [] => none
  | b :: _ => Flow.lastInteraction? b.steps
end

mutual
def Step.WellFormed : Step → Prop
  | .interaction _ => True
  | .loop _ body => body ≠ [] ∧ Flow.WellFormed body
  | .fork branches =>
    branches ≠ [] ∧ (branches.map (·.condition)).Nodup ∧ Flow.WellFormedBranches branches

/-- Every step is well formed; an empty flow is, too. -/
def Flow.WellFormed : Flow → Prop
  | [] => True
  | step :: rest => step.WellFormed ∧ Flow.WellFormed rest

def Flow.WellFormedBranches : List (Branch Step) → Prop
  | [] => True
  | b :: rest => (b.steps ≠ [] ∧ Flow.WellFormed b.steps) ∧ Flow.WellFormedBranches rest
end

end UseCaseFlow
