import UseCaseFlow.Entity
import UseCaseFlow.Flow.Basic
/-!
# Flow metrics

How many interactions a flow has, how many cross the line between actors and participants, and how
many start where the one before them ended. Interactions in loop bodies and in every branch count.
-/
namespace UseCaseFlow

/-- Whether one end is an actor and the other a participant. -/
def isUserLevel (entities : List Entity) (message : Interaction) : Bool :=
  match entities[message.source]?, entities[message.target]? with
  | some source, some target => source.isActor != target.isActor
  | _, _ => false

def Flow.interactionCount (flow : Flow) : Nat :=
  flow.interactions.length

def Flow.userLevelCount (entities : List Entity) (flow : Flow) : Nat :=
  flow.interactions.countP (isUserLevel entities)

/-- The target that a step after this one continues from. -/
def Step.lastTarget? (step : Step) : Option Nat :=
  step.last?.map (·.target)

mutual
/-- Interactions of the step that start at the target before them; `context` is the target before
the step. A loop body and every branch are entered with the context of their block. -/
def Step.consecutiveFrom (context : Option Nat) : Step → Nat
  | .interaction message => if context = some message.source then 1 else 0
  | .loop _ body => Flow.consecutiveFrom context body
  | .fork branches => Flow.branchesConsecutiveFrom context branches

def Flow.consecutiveFrom (context : Option Nat) : Flow → Nat
  | [] => 0
  | step :: rest => step.consecutiveFrom context + Flow.consecutiveFrom step.lastTarget? rest

def Flow.branchesConsecutiveFrom (context : Option Nat) : List (Branch Step) → Nat
  | [] => 0
  | b :: rest =>
    Flow.consecutiveFrom context b.steps + Flow.branchesConsecutiveFrom context rest
end

def Flow.consecutiveCount (flow : Flow) : Nat :=
  Flow.consecutiveFrom none flow

structure Metrics where
  entities : Nat
  actors : Nat
  explicit : Nat
  explicitActors : Nat
  interactions : Nat
  userLevel : Nat
  consecutive : Nat
  deriving DecidableEq, Repr

def Metrics.of (entities : List Entity) (flow : Flow) : Metrics where
  entities := countEntities {} entities
  actors := countEntities { onlyActors := true } entities
  explicit := countEntities { onlyExplicit := true } entities
  explicitActors := countEntities { onlyActors := true, onlyExplicit := true } entities
  interactions := flow.interactionCount
  userLevel := flow.userLevelCount entities
  consecutive := flow.consecutiveCount

def Metrics.summary (m : Metrics) : String :=
  s!" - {m.entities} entities ({m.actors} actors, {m.explicit} explicit)\n" ++
    s!" - {m.interactions} interactions ({m.userLevel} user-system level, " ++
    s!"{m.consecutive} consecutive)"

end UseCaseFlow
