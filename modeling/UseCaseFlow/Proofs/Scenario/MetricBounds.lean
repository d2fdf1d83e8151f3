import Mathlib.Data.List.Count
import UseCaseFlow.Proofs.Flow.Predecessor
import UseCaseFlow.Proofs.Scenario.Parse

/-!
# Bounds on the metrics

How the metrics of a scenario bound each other. The consecutive count stays below the number of
interactions, as the first interaction of a flow has none before it.
-/

namespace UseCaseFlow

section Entities

variable (entities : List Entity)

theorem countEntities_all : countEntities {} entities = entities.length := by
  simp [countEntities, EntityFilter.accepts]

theorem countEntities_mono {f g : EntityFilter}
    (h : ∀ e, f.accepts e = true → g.accepts e = true) :
    countEntities f entities ≤ countEntities g entities :=
  List.countP_mono_left fun e _ => h e

/-- Two filters together count no entity more than once, but for those that both of them accept. -/
theorem countEntities_add_le (f g both : EntityFilter)
    (h : ∀ e, f.accepts e = true → g.accepts e = true → both.accepts e = true) :
    countEntities f entities + countEntities g entities ≤
      entities.length + countEntities both entities := by
  induction entities with
  | nil => simp [countEntities]
  | cons e rest ih =>
    have he := h e
    simp only [countEntities, List.countP_cons, List.length_cons] at ih ⊢
    cases hf : f.accepts e <;> cases hg : g.accepts e <;> simp_all <;> omega

end Entities

section Occurrences

/-- In front of a well-formed flow's first interaction there is nothing, on any level. -/
theorem Flow.exists_holds_first {flow : Flow} (hwell : Flow.WellFormed flow) (hne : flow ≠ []) :
    ∃ o, flow.Holds o ∧ ∀ steps ∈ o.before, steps = [] := by
  induction flow using Flow.induction with
  | nil => contradiction
  | interaction message rest => exact ⟨_, .here [] message rest, by simp⟩
  | loop condition body rest ihbody =>
    obtain ⟨o, hholds, hfirst⟩ := ihbody hwell.1.2 hwell.1.1
    refine ⟨_, .inside [] rest (List.mem_singleton_self body) hholds, ?_⟩
    exact List.forall_mem_append.mpr ⟨hfirst, by simp⟩
  | fork branches rest ihbranches =>
    obtain ⟨⟨hbranches, -, hsteps⟩, -⟩ := hwell
    rw [wellFormedBranches_iff] at hsteps
    obtain ⟨b, hb⟩ := List.exists_mem_of_ne_nil branches hbranches
    obtain ⟨o, hholds, hfirst⟩ := ihbranches b hb (hsteps b hb).2 (hsteps b hb).1
    refine ⟨_, .inside [] rest (List.mem_map_of_mem hb) hholds, ?_⟩
    exact List.forall_mem_append.mpr ⟨hfirst, by simp⟩

variable {context target : Option Nat} {levels : List Flow}

theorem ContinuesFrom.eq_context (h : ContinuesFrom context levels target)
    (hempty : ∀ steps ∈ levels, steps = []) : target = context := by
  induction h with
  | start => rfl
  | outward h ih => exact ih fun steps hsteps => hempty steps (List.mem_cons_of_mem _ hsteps)
  | after hlast h => simp [hempty _ List.mem_cons_self] at hlast

/-- What is continued from inside the flow does not depend on the target before it. -/
theorem ContinuesFrom.of_none {source : Nat} (h : ContinuesFrom none levels (some source)) :
    ContinuesFrom context levels (some source) := by
  generalize htarget : some source = target at h
  induction h with
  | start => contradiction
  | outward h ih => exact .outward (ih htarget)
  | after hlast h => exact .after hlast h

end Occurrences

section Consecutive

variable (flow : Flow)

theorem Flow.consecutiveFrom_eq_countP_occurrences (context : Option Nat) :
    Flow.consecutiveFrom context flow = flow.occurrences.countP (Occurrence.Continues context) :=
  (countP_occurrencesAfter [] [] flow).symm

theorem Flow.length_occurrences : flow.occurrences.length = Flow.interactionCount flow := by
  rw [← List.length_map, map_message_occurrences, interactionCount]

/-- A target before the flow can only add to its count, and no interaction counts twice. -/
theorem Flow.consecutiveFrom_bounds (context : Option Nat) :
    Flow.consecutiveFrom none flow ≤ Flow.consecutiveFrom context flow ∧
      Flow.consecutiveFrom context flow ≤ Flow.interactionCount flow := by
  rw [consecutiveFrom_eq_countP_occurrences, consecutiveFrom_eq_countP_occurrences,
    ← length_occurrences]
  constructor
  · apply List.countP_mono_left
    intro o _ ho
    rw [decide_eq_true_eq] at ho ⊢
    exact ContinuesFrom.of_none ho
  · exact List.countP_le_length

variable {flow}

theorem Flow.consecutiveCount_lt (hwell : Flow.WellFormed flow) (hne : flow ≠ []) :
    Flow.consecutiveCount flow < Flow.interactionCount flow := by
  rw [consecutiveCount, consecutiveFrom_eq_countP_occurrences, ← length_occurrences,
    List.countP_lt_length_iff]
  obtain ⟨o, hholds, hfirst⟩ := exists_holds_first hwell hne
  refine ⟨o, mem_occurrences_iff.mpr hholds, ?_⟩
  rw [decide_eq_false_iff_not]
  intro hcontinues
  exact Option.some_ne_none _ (ContinuesFrom.eq_context hcontinues hfirst)

end Consecutive

/-- The metrics of the scenario are within the bounds that they set each other. -/
structure Scenario.WithinBounds (s : Scenario) : Prop where
  actors : s.metrics.actors ≤ s.metrics.entities
  explicit : s.metrics.explicit ≤ s.metrics.entities
  explicitActors : s.metrics.explicitActors ≤ min s.metrics.actors s.metrics.explicit
  overlap : s.metrics.actors + s.metrics.explicit ≤ s.metrics.entities + s.metrics.explicitActors
  userLevel : s.metrics.userLevel ≤ s.metrics.interactions
  consecutive : s.metrics.consecutive ≤ s.metrics.interactions
  withoutFlow (h : s.flow = []) : s.metrics.interactions = 0 ∧ s.metrics.userLevel = 0 ∧
    s.metrics.consecutive = 0
  withFlow (h : s.flow ≠ []) : 1 ≤ s.metrics.interactions ∧
    s.metrics.consecutive < s.metrics.interactions

theorem Scenario.withinBounds_of_wellFormed {s : Scenario} (hwell : Flow.WellFormed s.flow) :
    s.WithinBounds := by
  constructor
  case actors =>
    apply countEntities_mono
    simp [EntityFilter.accepts]
  case explicit =>
    apply countEntities_mono
    simp [EntityFilter.accepts]
  case explicitActors =>
    apply Nat.le_min.mpr
    constructor
    · apply countEntities_mono
      simp +contextual [EntityFilter.accepts]
    · apply countEntities_mono
      simp [EntityFilter.accepts]
  case overlap =>
    have hoverlap := countEntities_add_le s.entities { onlyActors := true }
      { onlyExplicit := true } { onlyActors := true, onlyExplicit := true }
      (by simp +contextual [EntityFilter.accepts])
    rwa [← countEntities_all] at hoverlap
  case userLevel => exact List.countP_le_length
  case consecutive => exact (Flow.consecutiveFrom_bounds s.flow none).2
  case withoutFlow =>
    intro h
    simp [Scenario.metrics, Metrics.of, h, Flow.interactionCount, Flow.userLevelCount,
      Flow.consecutiveCount, Flow.consecutiveFrom]
  case withFlow =>
    intro h
    have hlt := Flow.consecutiveCount_lt hwell h
    exact ⟨Nat.one_le_of_lt hlt, hlt⟩

/-- The bounds hold of every scenario that is read from a document or put together from a
well-formed flow, whatever positions its interactions have. A target in front of a flow never lowers
its count, and never raises it above the number of interactions. -/
theorem Scenario.metrics_withinBounds :
    (∀ s : Scenario, Flow.WellFormed s.flow → s.WithinBounds) ∧
    (∀ key document limit s, Scenario.parse key document limit = .ok s → s.WithinBounds) ∧
    ∀ flow context, Flow.consecutiveFrom none flow ≤ Flow.consecutiveFrom context flow ∧
      Flow.consecutiveFrom context flow ≤ Flow.interactionCount flow := by
  refine ⟨fun s hwell => withinBounds_of_wellFormed hwell, ?_, Flow.consecutiveFrom_bounds⟩
  intro key document limit s h
  exact withinBounds_of_wellFormed (wellFormed_of_parse h)

/-- A flow that starts with a fork inside a loop, and with an entity that is not declared. -/
def undeclaredScenario : Scenario where
  key := ⟨"R", "U"⟩
  entities := [⟨"u", "User", .actor, true⟩, ⟨"s", "S", .participant, false⟩]
  flow := [.loop "l" [.fork [⟨"x", [.interaction ⟨0, 7, false, "a"⟩]⟩,
    ⟨"y", [.interaction ⟨7, 1, false, "b"⟩]⟩]], .interaction ⟨7, 0, true, "c"⟩]

/-- The scenario that declares one actor and has no steps. -/
def idleScenario : Scenario where
  key := ⟨"R", "U"⟩
  entities := [⟨"u", "User", .actor, true⟩]
  flow := []

theorem Scenario.withinBounds_undeclared :
    Flow.WellFormed undeclaredScenario.flow ∧ undeclaredScenario.WithinBounds ∧
    undeclaredScenario.metrics = ⟨2, 1, 1, 1, 3, 0, 1⟩ ∧
    Scenario.parse ⟨"R", "U"⟩ "actor u AS User" = .ok idleScenario ∧ idleScenario.WithinBounds ∧
    Flow.consecutiveFrom none undeclaredScenario.flow = 1 ∧
    Flow.consecutiveFrom (some 7) undeclaredScenario.flow = 2 := by
  have hwell : Flow.WellFormed undeclaredScenario.flow := by decide
  have hidle : Scenario.parse ⟨"R", "U"⟩ "actor u AS User" = .ok idleScenario := rfl
  exact ⟨hwell, metrics_withinBounds.1 _ hwell, by decide, hidle,
    metrics_withinBounds.2.1 _ _ _ _ hidle, by decide, by decide⟩

end UseCaseFlow
