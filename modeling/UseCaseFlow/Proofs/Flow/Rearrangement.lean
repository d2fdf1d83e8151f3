import UseCaseFlow.Proofs.Flow.Replacement

/-!
# Rearranged branches

Of the branches of a fork only the first one is special. The others may change places, and all
conditions may be written differently, without a change of the metrics; the number of interactions
does not even depend on which branch comes first.
-/

namespace UseCaseFlow

/-- The branches of a fork change places as the order says, or conditions are rewritten. -/
inductive Step.Rearranges (order : List (Branch Step) → List (Branch Step) → Prop) :
    Step → Flow → Prop
  | branches {left right : List (Branch Step)} (h : order left right) :
      Rearranges order (.fork left) [.fork right]
  | loopCondition (condition condition' : String) (body : Flow) :
      Rearranges order (.loop condition body) [.loop condition' body]
  | branchConditions {left right : List (Branch Step)}
      (hsteps : right.map (·.steps) = left.map (·.steps))
      (hdistinct : (right.map (·.condition)).Nodup) :
      Rearranges order (.fork left) [.fork right]

/-- The same branches in another order, behind the same first one. -/
structure KeepsFirst (left right : List (Branch Step)) : Prop where
  perm : left.Perm right
  first : left.head? = right.head?

section Branches

variable {left right : List (Branch Step)} (hsteps : (left.map (·.steps)).Perm (right.map (·.steps)))

include hsteps

theorem Step.WellFormed.fork_perm (h : Step.WellFormed (.fork left))
    (hdistinct : (right.map (·.condition)).Nodup) : Step.WellFormed (.fork right) := by
  obtain ⟨hne, -, hbranches⟩ := h
  have hlength : left.length = right.length := by simpa using hsteps.length_eq
  refine ⟨?_, hdistinct, ?_⟩
  · rw [← List.length_pos_iff] at hne ⊢
    rwa [← hlength]
  · rw [Flow.wellFormedBranches_iff] at hbranches ⊢
    intro b hb
    have hmem : b.steps ∈ left.map (·.steps) := hsteps.symm.subset (List.mem_map_of_mem hb)
    obtain ⟨b', hb', hsame⟩ := List.mem_map.mp hmem
    rw [← hsame]
    exact hbranches b' hb'

theorem Flow.interactions_fork_perm :
    (Flow.interactions [.fork left]).Perm (Flow.interactions [.fork right]) := by
  have hflat := hsteps.flatMap_right Flow.interactions
  rw [List.flatMap_map, List.flatMap_map] at hflat
  simpa using hflat

/-- The order of the branches does not matter for the course of a fork, the first one apart. -/
theorem Flow.SameCourse.fork_perm
    (hfirst : left.head?.map (·.steps) = right.head?.map (·.steps)) :
    Flow.SameCourse [.fork left] [.fork right] := by
  apply SameCourse.fork
  · intro context
    have hsum := (hsteps.map (Flow.consecutiveFrom context)).sum_nat
    rwa [List.map_map, List.map_map] at hsum
  · cases left <;> cases right <;> simp_all [lastOfFirst?]

end Branches

theorem Flow.interactions_of_rearranges {order : List (Branch Step) → List (Branch Step) → Prop}
    (horder : ∀ left right, order left right → left.Perm right) (step : Step) (steps : Flow)
    (h : step.Rearranges order steps) :
    (Flow.interactions [step]).Perm (Flow.interactions steps) := by
  cases h with
  | branches h => exact interactions_fork_perm ((horder _ _ h).map _)
  | loopCondition condition condition' body => exact .refl _
  | branchConditions hsteps hdistinct => exact interactions_fork_perm (.of_eq hsteps.symm)

theorem keepsCourse_rearranges : KeepsCourse (Step.Rearranges KeepsFirst) := by
  constructor
  case wellFormed =>
    intro step steps h hwell
    cases h with
    | branches h =>
      have hdistinct := (h.perm.map (·.condition)).nodup_iff.mp hwell.2.1
      exact ⟨hwell.fork_perm (h.perm.map _) hdistinct, trivial⟩
    | loopCondition condition condition' body => exact ⟨hwell, trivial⟩
    | branchConditions hsteps hdistinct =>
      exact ⟨hwell.fork_perm (.of_eq hsteps.symm) hdistinct, trivial⟩
  case sameCourse =>
    intro step steps h hwell
    cases h with
    | branches h => exact .fork_perm (h.perm.map _) (by rw [h.first])
    | loopCondition condition condition' body =>
      exact (Flow.SameCourse.refl body).loop condition condition'
    | branchConditions hsteps hdistinct =>
      refine .fork_perm (.of_eq hsteps.symm) ?_
      rw [← List.head?_map, ← List.head?_map, hsteps]

/-- As long as the first branch of every fork stays the first, other branches and all conditions may
change without a change of the counts and of the end of a flow; and the counts of the interactions
stay the same in any order of the branches. -/
theorem Flow.counts_of_rearranged (flow flow' : Flow) :
    (Flow.WellFormed flow → Flow.Becomes (Step.Rearranges KeepsFirst) flow flow' →
      Flow.SameCounts flow flow' ∧ Flow.SameCourse flow flow') ∧
    (Flow.Becomes (Step.Rearranges List.Perm) flow flow' → Flow.SameCounts flow flow') := by
  constructor
  · intro hwell h
    have hcounts := h.sameCounts (interactions_of_rearranges fun _ _ horder => horder.perm)
    exact ⟨hcounts, (h.sameCourse keepsCourse_rearranges hwell).1⟩
  · intro h
    exact h.sameCounts (interactions_of_rearranges fun _ _ horder => horder)

def acceptBranch : Branch Step :=
  ⟨"accept", [.interaction ⟨0, 1, false, "yes"⟩]⟩

def rejectBranch : Branch Step :=
  ⟨"reject", [.interaction ⟨0, 2, false, "no"⟩]⟩

def repeatBranch : Branch Step :=
  ⟨"repeat", [.interaction ⟨1, 0, false, "again"⟩]⟩

/-- A decision in a loop, and an answer that follows it. -/
def decisionFlow (branches : List (Branch Step)) : Flow :=
  [.loop "open" [.fork branches], .interaction ⟨1, 0, true, "done"⟩]

theorem Flow.counts_of_decisionFlow :
    (Flow.WellFormed (decisionFlow [acceptBranch, rejectBranch, repeatBranch]) ∧
      Flow.Becomes (Step.Rearranges KeepsFirst)
        (decisionFlow [acceptBranch, rejectBranch, repeatBranch])
        (decisionFlow [acceptBranch, repeatBranch, rejectBranch]) ∧
      Flow.SameCourse (decisionFlow [acceptBranch, rejectBranch, repeatBranch])
        (decisionFlow [acceptBranch, repeatBranch, rejectBranch])) ∧
    Flow.Becomes (Step.Rearranges List.Perm)
      (decisionFlow [acceptBranch, rejectBranch, repeatBranch])
      (decisionFlow [rejectBranch, acceptBranch, repeatBranch]) ∧
    Flow.SameCounts (decisionFlow [acceptBranch, rejectBranch, repeatBranch])
      (decisionFlow [rejectBranch, acceptBranch, repeatBranch]) := by
  have hwell : WellFormed (decisionFlow [acceptBranch, rejectBranch, repeatBranch]) := by decide
  have hkeeps : KeepsFirst [acceptBranch, rejectBranch, repeatBranch]
      [acceptBranch, repeatBranch, rejectBranch] := ⟨.cons _ (.swap _ _ _), rfl⟩
  have hperm : [acceptBranch, rejectBranch, repeatBranch].Perm
      [rejectBranch, acceptBranch, repeatBranch] := .swap _ _ _
  have hlater : Becomes (Step.Rearranges KeepsFirst)
      (decisionFlow [acceptBranch, rejectBranch, repeatBranch])
      (decisionFlow [acceptBranch, repeatBranch, rejectBranch]) :=
    .single (.loop "open" (.here (Step.Rearranges.branches hkeeps) []) _)
  have hfirst : Becomes (Step.Rearranges List.Perm)
      (decisionFlow [acceptBranch, rejectBranch, repeatBranch])
      (decisionFlow [rejectBranch, acceptBranch, repeatBranch]) :=
    .single (.loop "open" (.here (Step.Rearranges.branches hperm) []) _)
  exact ⟨⟨hwell, hlater, ((counts_of_rearranged _ _).1 hwell hlater).2⟩, hfirst,
    (counts_of_rearranged _ _).2 hfirst⟩

end UseCaseFlow
