import Mathlib.Data.List.Basic
import Mathlib.Logic.Equiv.Basic
import UseCaseFlow.Metrics
import UseCaseFlow.Proofs.Flow.Predecessor

/-!
# Renumbered flows

A flow refers to entities by their positions. If the entities change places and the flow is
renumbered along, its metrics stay the same.
-/

namespace UseCaseFlow

def Interaction.renumbered (position : Nat → Nat) (message : Interaction) : Interaction :=
  { message with source := position message.source, target := position message.target }

mutual

def Step.renumbered (position : Nat → Nat) : Step → Step
  | .interaction message => .interaction (message.renumbered position)
  | .loop condition body => .loop condition (Flow.renumbered position body)
  | .fork branches => .fork (Flow.renumberedBranches position branches)

def Flow.renumbered (position : Nat → Nat) : Flow → Flow
  | [] => []
  | step :: rest => step.renumbered position :: Flow.renumbered position rest

def Flow.renumberedBranches (position : Nat → Nat) : List (Branch Step) → List (Branch Step)
  | [] => []
  | b :: rest =>
    ⟨b.condition, Flow.renumbered position b.steps⟩ :: Flow.renumberedBranches position rest

end

/-- Every entity stands at its new position in the other list, and no two at the same one. -/
structure Renumbers (entities others : List Entity) (position : Nat → Nat) : Prop where
  injective : Function.Injective position
  lookup : ∀ i, others[position i]? = entities[i]?

theorem exists_renumbers {entities others : List Entity} (h : entities.Perm others) :
    ∃ position, Renumbers entities others position := by
  induction h with
  | nil => exact ⟨id, Function.injective_id, fun i => rfl⟩
  | @cons e rest rest' _ ih =>
    obtain ⟨position, hinjective, hlookup⟩ := ih
    refine ⟨fun | 0 => 0 | i + 1 => position i + 1, ?_, ?_⟩
    · intro i j hij
      cases i with
      | zero =>
        cases j with
        | zero => rfl
        | succ j => exact absurd hij.symm (Nat.succ_ne_zero _)
      | succ i =>
        cases j with
        | zero => exact absurd hij (Nat.succ_ne_zero _)
        | succ j => exact congrArg (· + 1) (hinjective (Nat.succ.inj hij))
    · intro i
      cases i with
      | zero => rfl
      | succ i => exact hlookup i
  | swap e e' rest =>
    refine ⟨Equiv.swap 0 1, (Equiv.swap 0 1).injective, ?_⟩
    intro i
    cases i with
    | zero => rfl
    | succ i =>
      cases i with
      | zero => rfl
      | succ i =>
        rw [Equiv.swap_apply_of_ne_of_ne (by omega) (by omega)]
        rfl
  | trans _ _ ih ih' =>
    obtain ⟨position, hinjective, hlookup⟩ := ih
    obtain ⟨position', hinjective', hlookup'⟩ := ih'
    exact ⟨position' ∘ position, hinjective'.comp hinjective,
      fun i => (hlookup' (position i)).trans (hlookup i)⟩

section Shape

variable (position : Nat → Nat)

theorem Flow.renumberedBranches_eq_map (branches : List (Branch Step)) :
    Flow.renumberedBranches position branches =
      branches.map fun b => ⟨b.condition, Flow.renumbered position b.steps⟩ := by
  induction branches with
  | nil => rfl
  | cons b rest ih => rw [renumberedBranches, ih, List.map_cons]

theorem Flow.isEmpty_renumbered (flow : Flow) :
    (Flow.renumbered position flow).isEmpty = flow.isEmpty := by
  cases flow <;> rfl

theorem Flow.interactions_renumbered (flow : Flow) :
    Flow.interactions (Flow.renumbered position flow) =
      (Flow.interactions flow).map (·.renumbered position) := by
  induction flow using Flow.induction with
  | nil => rfl
  | interaction message rest ih =>
    rw [renumbered, Step.renumbered, interactions_interaction, ih, interactions_interaction,
      List.map_cons]
  | loop condition body rest ihbody ih =>
    rw [renumbered, Step.renumbered, interactions_loop, ihbody, ih, interactions_loop,
      List.map_append]
  | fork branches rest ihbranches ih =>
    rw [renumbered, Step.renumbered, renumberedBranches_eq_map, interactions_fork, ih,
      interactions_fork, List.map_append, List.map_flatMap, List.flatMap_map,
      List.flatMap_congr ihbranches]

theorem Flow.lastInteraction?_renumbered (flow : Flow) :
    Flow.lastInteraction? (Flow.renumbered position flow) =
      (Flow.lastInteraction? flow).map (·.renumbered position) := by
  -- A flow ends like its last step, which is the first one only if no other follows.
  have hcons {step : Step} {rest : Flow}
      (hstep : (step.renumbered position).last? = step.last?.map (·.renumbered position))
      (hrest : Flow.lastInteraction? (Flow.renumbered position rest) =
        (Flow.lastInteraction? rest).map (·.renumbered position)) :
      Flow.lastInteraction? (Flow.renumbered position (step :: rest)) =
        (Flow.lastInteraction? (step :: rest)).map (·.renumbered position) := by
    cases rest with
    | nil => exact hstep
    | cons next rest => exact hrest
  induction flow using Flow.induction with
  | nil => rfl
  | interaction message rest ih => exact hcons rfl ih
  | loop condition body rest ihbody ih => exact hcons ihbody ih
  | fork branches rest ihbranches ih =>
    refine hcons ?_ ih
    rw [Step.renumbered, Step.last?, Step.last?]
    cases branches with
    | nil => rfl
    | cons b branches => exact ihbranches b List.mem_cons_self

theorem Step.lastTarget?_renumbered (step : Step) :
    (step.renumbered position).lastTarget? = step.lastTarget?.map position := by
  have hlast := Flow.lastInteraction?_renumbered position [step]
  change (step.renumbered position).last? = step.last?.map (·.renumbered position) at hlast
  rw [lastTarget?, hlast, lastTarget?, Option.map_map, Option.map_map]
  rfl

end Shape

section Metrics

variable {entities others : List Entity} {position : Nat → Nat}

theorem Renumbers.isUserLevel_eq (h : Renumbers entities others position) (message : Interaction) :
    isUserLevel others (message.renumbered position) = isUserLevel entities message := by
  simp only [isUserLevel, Interaction.renumbered, h.lookup]

/-- An interaction continues from the target before it whatever the two are numbered. -/
theorem Flow.consecutiveFrom_renumbered (hinjective : Function.Injective position)
    (context : Option Nat) (flow : Flow) :
    Flow.consecutiveFrom (context.map position) (Flow.renumbered position flow) =
      Flow.consecutiveFrom context flow := by
  induction flow using Flow.induction generalizing context with
  | nil => rfl
  | interaction message rest ih =>
    have hsource : context.map position = some (position message.source) ↔
        context = some message.source := by
      rw [← Option.map_some, (Option.map_injective hinjective).eq_iff]
    rw [renumbered, consecutiveFrom, consecutiveFrom, Step.lastTarget?_renumbered, ih,
      Step.renumbered, Step.consecutiveFrom, Step.consecutiveFrom]
    simp only [Interaction.renumbered, hsource]
  | loop condition body rest ihbody ih =>
    rw [renumbered, consecutiveFrom, consecutiveFrom, Step.lastTarget?_renumbered, ih,
      Step.renumbered, Step.consecutiveFrom, Step.consecutiveFrom, ihbody]
  | fork branches rest ihbranches ih =>
    rw [renumbered, consecutiveFrom, consecutiveFrom, Step.lastTarget?_renumbered, ih,
      Step.renumbered, Step.consecutiveFrom, Step.consecutiveFrom, renumberedBranches_eq_map,
      branchesConsecutiveFrom_eq_sum, branchesConsecutiveFrom_eq_sum, List.map_map]
    congr 2
    apply List.map_congr_left
    intro b hb
    exact ihbranches b hb context

theorem Metrics.of_renumbered (hperm : entities.Perm others)
    (h : Renumbers entities others position) (flow : Flow) :
    Metrics.of others (Flow.renumbered position flow) = Metrics.of entities flow := by
  have hcount (f : EntityFilter) : countEntities f others = countEntities f entities :=
    (hperm.countP_eq f.accepts).symm
  have huser : Flow.userLevelCount others (Flow.renumbered position flow) =
      Flow.userLevelCount entities flow := by
    rw [Flow.userLevelCount, Flow.interactions_renumbered, List.countP_map, Flow.userLevelCount]
    congr 1
    funext message
    exact h.isUserLevel_eq message
  have hconsecutive : Flow.consecutiveCount (Flow.renumbered position flow) =
      Flow.consecutiveCount flow :=
    Flow.consecutiveFrom_renumbered h.injective none flow
  rw [Metrics.of, huser, hconsecutive, Flow.interactionCount, Flow.interactions_renumbered,
    List.length_map, Metrics.of, Flow.interactionCount]
  simp only [hcount]

end Metrics

end UseCaseFlow
