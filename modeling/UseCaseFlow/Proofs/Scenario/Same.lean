import UseCaseFlow.Proofs.Flow.Ending
import UseCaseFlow.Proofs.Scenario.Parse

/-!
# Metrics of equal scenarios

Equal scenarios agree in every metric but the consecutive count, which depends on the branch that a
fork declares first.
-/

namespace UseCaseFlow

theorem Flow.interactionCount_of_same {left right : Flow} (hwell : Flow.WellFormed left)
    (h : Flow.same left right = true) : left.interactionCount = right.interactionCount :=
  (interactions_perm_of_same hwell h).length_eq

theorem Flow.userLevelCount_of_same {left right : Flow} (hwell : Flow.WellFormed left)
    (h : Flow.same left right = true) (entities : List Entity) :
    left.userLevelCount entities = right.userLevelCount entities :=
  (interactions_perm_of_same hwell h).countP_eq _

theorem Scenario.same_iff {a b : Scenario} : a.same b = true ↔
    a.key = b.key ∧ a.entities = b.entities ∧ Flow.same a.flow b.flow = true := by
  rw [Scenario.same, Bool.and_eq_true, Bool.and_eq_true, beq_iff_eq, beq_iff_eq, and_assoc]

theorem Scenario.metrics_of_same {a b : Scenario} (hwell : Flow.WellFormed a.flow)
    (h : a.same b = true) :
    a.metrics = { b.metrics with consecutive := a.metrics.consecutive } ∧
      (Flow.endsAlike (·.target) a.flow b.flow = true → a.metrics = b.metrics) := by
  obtain ⟨-, hentities, hflow⟩ := same_iff.mp h
  have hmetrics : a.metrics = { b.metrics with consecutive := a.metrics.consecutive } := by
    simp only [Scenario.metrics, Metrics.of, hentities, Flow.interactionCount_of_same hwell hflow,
      Flow.userLevelCount_of_same hwell hflow]
  refine ⟨hmetrics, fun hends => ?_⟩
  have hconsecutive : a.metrics.consecutive = b.metrics.consecutive :=
    Flow.consecutiveFrom_of_same hwell hflow hends none
  rw [hmetrics, hconsecutive]

/-- Equality as a congruence. Six metrics of equal scenarios are equal. Of the branches of a fork,
equality does not see which one comes first: the consecutive counts are equal if the first branches
of corresponding forks end at the same targets, and the last interactions are equal if the first
branches end with the same interactions. -/
theorem Scenario.congruence_of_same :
    (∀ a b : Scenario, Flow.WellFormed a.flow → a.same b = true →
      a.metrics = { b.metrics with consecutive := a.metrics.consecutive } ∧
        (Flow.endsAlike (·.target) a.flow b.flow = true → a.metrics = b.metrics)) ∧
    ∀ left right : Flow, Flow.WellFormed left → Flow.same left right = true →
      (Flow.endsAlike (·.target) left right = true → ∀ context,
        Flow.consecutiveFrom context left = Flow.consecutiveFrom context right) ∧
      (Flow.endsAlike id left right = true →
        Flow.lastInteraction? left = Flow.lastInteraction? right) := by
  refine ⟨fun a b hwell h => metrics_of_same hwell h, fun left right hwell h => ⟨?_, ?_⟩⟩
  · exact fun hends context => Flow.consecutiveFrom_of_same hwell h hends context
  · intro hends
    simpa using Flow.map_lastInteraction?_of_same h hends

section SwappedBranches

/-- A fork from the first entity to the second or to the third, then a message from the second. -/
def forkedScenario (first second : Branch Step) : Scenario where
  key := ⟨"R", "U"⟩
  entities := [⟨"a", "A", .actor, true⟩, ⟨"b", "B", .participant, true⟩,
    ⟨"c", "C", .participant, true⟩]
  flow := [.fork [first, second], .interaction ⟨1, 0, false, "three"⟩]

def toSecond : Branch Step := ⟨"x", [.interaction ⟨0, 1, false, "one"⟩]⟩

def toThird : Branch Step := ⟨"y", [.interaction ⟨0, 2, false, "two"⟩]⟩

def toThirdAndSecond : Branch Step :=
  ⟨"y", [.interaction ⟨0, 2, false, "two"⟩, .interaction ⟨0, 1, false, "one"⟩]⟩

/-- Equal scenarios whose forks declare their branches in different orders. -/
theorem Scenario.metrics_ne_of_swapped_branches :
    Flow.WellFormed (forkedScenario toSecond toThird).flow ∧
    Flow.WellFormed (forkedScenario toThird toSecond).flow ∧
    (forkedScenario toSecond toThird).same (forkedScenario toThird toSecond) = true ∧
    (forkedScenario toSecond toThird).metrics ≠ (forkedScenario toThird toSecond).metrics ∧
    Flow.same [.fork [toSecond, toThird]] [.fork [toThird, toSecond]] = true ∧
    Flow.lastInteraction? [.fork [toSecond, toThird]] ≠
      Flow.lastInteraction? [.fork [toThird, toSecond]] := by
  decide +kernel

/-- Branches may change places if the fork ends alike. -/
theorem Scenario.metrics_eq_of_swapped_branches :
    Flow.WellFormed (forkedScenario toSecond toThirdAndSecond).flow ∧
    (forkedScenario toSecond toThirdAndSecond).same (forkedScenario toThirdAndSecond toSecond) =
      true ∧
    (forkedScenario toSecond toThirdAndSecond).metrics =
      (forkedScenario toThirdAndSecond toSecond).metrics ∧
    Flow.lastInteraction? [.fork [toSecond, toThirdAndSecond]] =
      Flow.lastInteraction? [.fork [toThirdAndSecond, toSecond]] := by
  have hwell : Flow.WellFormed (forkedScenario toSecond toThirdAndSecond).flow := by decide +kernel
  have hsame : (forkedScenario toSecond toThirdAndSecond).same
      (forkedScenario toThirdAndSecond toSecond) = true := by decide +kernel
  refine ⟨hwell, hsame, ?_, ?_⟩
  · exact (congruence_of_same.1 _ _ hwell hsame).2 (by decide +kernel)
  · exact (congruence_of_same.2 [.fork [toSecond, toThirdAndSecond]]
      [.fork [toThirdAndSecond, toSecond]] (by decide +kernel) (by decide +kernel)).2
      (by decide +kernel)

end SwappedBranches

end UseCaseFlow
