import UseCaseFlow.Proofs.Flow.Replacement
import UseCaseFlow.Proofs.Flow.Steps

/-!
# Unwrapped blocks

Loops, and forks with one branch, do not matter for the metrics: their steps may as well stand in
the flow around them. A flow without other forks is counted like the list of its interactions.
-/

namespace UseCaseFlow

/-- A loop gives place to its body, and a fork with one branch to the steps of that branch. -/
inductive Step.Unwraps : Step → Flow → Prop
  | loop (condition : String) (body : Flow) : Unwraps (.loop condition body) body
  | fork (b : Branch Step) : Unwraps (.fork [b]) b.steps

/-- No fork of the flow, at any depth, has two or more branches. -/
def Flow.Unbranched (flow : Flow) : Prop :=
  ∀ step ∈ Flow.allSteps flow, step.branchCount ≤ 1

/-- The pairs of neighbours in the list of which the second starts where the first ends. -/
def continuingPairs (messages : List Interaction) : Nat :=
  messages.consecutivePairs.countP fun p => p.1.target == p.2.source

theorem Flow.interactions_of_unwraps (step : Step) (steps : Flow) (h : step.Unwraps steps) :
    (Flow.interactions [step]).Perm (Flow.interactions steps) := by
  cases h <;> simp

theorem keepsCourse_unwraps : KeepsCourse Step.Unwraps := by
  constructor
  case wellFormed =>
    intro step steps h hwell
    cases h with
    | loop condition body => exact hwell.2
    | fork b => exact hwell.2.2.1.2
  case sameCourse =>
    intro step steps h hwell
    cases h with
    | loop condition body =>
      refine ⟨fun context => ?_, rfl, by simpa using hwell.1⟩
      simp [Flow.consecutiveFrom, Step.consecutiveFrom]
    | fork b =>
      refine ⟨fun context => ?_, rfl, by simpa using hwell.2.2.1.1⟩
      simp [Flow.consecutiveFrom, Step.consecutiveFrom, Flow.branchesConsecutiveFrom]

/-- Without a choice between branches, nothing but the interactions is left in the end. -/
theorem Flow.becomes_interactions {flow : Flow} (hwell : Flow.WellFormed flow)
    (h : flow.Unbranched) :
    Flow.Becomes Step.Unwraps flow ((Flow.interactions flow).map .interaction) := by
  induction flow using Flow.induction with
  | nil => exact .refl
  | interaction message rest ih =>
    rw [Unbranched, allSteps_interaction, List.forall_mem_cons] at h
    have hhere : Becomes Step.Unwraps [.interaction message] [.interaction message] := .refl
    exact hhere.append (ih hwell.2 h.2)
  | loop condition body rest ihbody ih =>
    rw [Unbranched, allSteps_loop, List.forall_mem_cons, List.forall_mem_append] at h
    rw [interactions_loop, List.map_append]
    exact .head (.here (.loop condition body) rest)
      ((ihbody hwell.1.2 h.2.1).append (ih hwell.2 h.2.2))
  | fork branches rest ihbranches ih =>
    rw [Unbranched, allSteps_fork, List.forall_mem_cons, List.forall_mem_append,
      List.forall_mem_flatMap] at h
    obtain ⟨hcount, hbranches, hrest⟩ := h
    obtain ⟨b, rfl⟩ : ∃ b, branches = [b] := by
      have hpos := List.length_pos_iff.mpr hwell.1.1
      exact List.length_eq_one_iff.mp (Nat.le_antisymm hcount hpos)
    have hb : b ∈ [b] := List.mem_singleton_self b
    rw [interactions_fork, List.flatMap_singleton, List.map_append]
    exact .head (.here (.fork b) rest)
      ((ihbranches b hb hwell.1.2.2.1.2 (hbranches b hb)).append (ih hwell.2 hrest))

theorem Flow.consecutiveFrom_map_interaction (first : Interaction) (messages : List Interaction) :
    Flow.consecutiveFrom (some first.target) (messages.map .interaction) =
      continuingPairs (first :: messages) := by
  induction messages generalizing first with
  | nil => rfl
  | cons message messages ih =>
    have htarget : (Step.interaction message).lastTarget? = some message.target := rfl
    rw [List.map_cons, consecutiveFrom, htarget, ih, Step.consecutiveFrom]
    simp only [continuingPairs, List.consecutivePairs, List.tail_cons, List.zip_cons_cons,
      List.countP_cons, beq_iff_eq, Option.some.injEq]
    exact Nat.add_comm _ _

theorem Flow.consecutiveCount_map_interaction (messages : List Interaction) :
    Flow.consecutiveCount (messages.map .interaction) = continuingPairs messages := by
  cases messages with
  | nil => rfl
  | cons first messages =>
    rw [consecutiveCount, List.map_cons, consecutiveFrom, Step.consecutiveFrom,
      if_neg (Option.some_ne_none _).symm, Nat.zero_add]
    exact consecutiveFrom_map_interaction first messages

/-- Unwrapped blocks leave all counts and the end of a flow as they are; and a flow in which no fork
has two branches has as many consecutive interactions as its list of interactions has neighbours of
which the second starts where the first ends. -/
theorem Flow.counts_of_unwrapped (flow : Flow) (hwell : Flow.WellFormed flow) :
    (∀ flow', Flow.Becomes Step.Unwraps flow flow' →
      Flow.SameCounts flow flow' ∧ Flow.SameCourse flow flow') ∧
    (flow.Unbranched → Flow.consecutiveCount flow = continuingPairs (Flow.interactions flow)) := by
  constructor
  · intro flow' h
    exact ⟨h.sameCounts interactions_of_unwraps, (h.sameCourse keepsCourse_unwraps hwell).1⟩
  · intro h
    have hflat := ((becomes_interactions hwell h).sameCourse keepsCourse_unwraps hwell).1
    rw [← consecutiveCount_map_interaction]
    exact hflat.consecutive none

/-- Three messages in a row, the second one in a fork and both of the first two in a loop. -/
def wrappedFlow : Flow :=
  [.loop "again" [.interaction ⟨0, 1, false, "a"⟩,
    .fork [⟨"x", [.interaction ⟨1, 2, false, "b"⟩]⟩]], .interaction ⟨2, 0, false, "c"⟩]

theorem Flow.counts_of_wrappedFlow :
    Flow.WellFormed wrappedFlow ∧ wrappedFlow.Unbranched ∧
    Flow.Becomes Step.Unwraps wrappedFlow [.interaction ⟨0, 1, false, "a"⟩,
      .interaction ⟨1, 2, false, "b"⟩, .interaction ⟨2, 0, false, "c"⟩] ∧
    Flow.SameCourse wrappedFlow [.interaction ⟨0, 1, false, "a"⟩,
      .interaction ⟨1, 2, false, "b"⟩, .interaction ⟨2, 0, false, "c"⟩] ∧
    Flow.consecutiveCount wrappedFlow = 2 := by
  have hwell : WellFormed wrappedFlow := by decide
  have hunbranched : wrappedFlow.Unbranched := by
    rw [Unbranched]
    decide
  have hbranch := Replaces.here (Step.Unwraps.fork ⟨"x", [.interaction ⟨1, 2, false, "b"⟩]⟩) []
  have hfork := Replaces.loop "again" (hbranch.later (.interaction ⟨0, 1, false, "a"⟩))
    [.interaction ⟨2, 0, false, "c"⟩]
  have hloop := Replaces.here (Step.Unwraps.loop "again" [.interaction ⟨0, 1, false, "a"⟩,
    .interaction ⟨1, 2, false, "b"⟩]) [.interaction ⟨2, 0, false, "c"⟩]
  have hbecomes := Relation.ReflTransGen.head hfork (.single hloop)
  obtain ⟨hunwrapped, hflat⟩ := counts_of_unwrapped wrappedFlow hwell
  exact ⟨hwell, hunbranched, hbecomes, (hunwrapped _ hbecomes).2, hflat hunbranched⟩

end UseCaseFlow
