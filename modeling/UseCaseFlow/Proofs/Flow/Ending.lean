import UseCaseFlow.Metrics
import UseCaseFlow.Proofs.Flow.Predecessor
import UseCaseFlow.Proofs.Flow.Same

/-!
# Equal flows that end alike

After a fork a flow continues from the end of the first branch, and equality does not say which
branch that is. If the forks of two equal flows end alike, the flows end alike, and steps behind
them continue from the same target.
-/

namespace UseCaseFlow

theorem Flow.map_lastInteraction?_cons {α : Type} {view : Interaction → α} {step step' : Step}
    {rest rest' : Flow}
    (hlength : rest.length = rest'.length) (hstep : step.last?.map view = step'.last?.map view)
    (hrest : (Flow.lastInteraction? rest).map view = (Flow.lastInteraction? rest').map view) :
    (Flow.lastInteraction? (step :: rest)).map view =
      (Flow.lastInteraction? (step' :: rest')).map view := by
  cases rest with
  | nil =>
    obtain rfl := List.length_eq_zero_iff.mp hlength.symm
    exact hstep
  | cons next rest =>
    cases rest' with
    | nil => simp at hlength
    | cons next' rest' => exact hrest

section EndsAlike

variable {α : Type} [DecidableEq α] (view : Interaction → α)

mutual

def Step.endsAlike : Step → Step → Bool
  | .loop _ body, .loop _ body' => Flow.endsAlike body body'
  | .fork left, .fork right =>
    (Flow.lastOfFirst? left).map view == (Flow.lastOfFirst? right).map view &&
      Flow.branchesEndAlike left right
  | _, _ => true

/-- Whether the first branches of corresponding forks end with interactions of the same view. -/
def Flow.endsAlike : Flow → Flow → Bool
  | step :: rest, step' :: rest' => step.endsAlike step' && Flow.endsAlike rest rest'
  | _, _ => true

def Flow.branchesEndAlike : List (Branch Step) → List (Branch Step) → Bool
  | [], _ => true
  | b :: rest, right =>
    (match findBranch? b.condition right with
      | some b' => Flow.endsAlike b.steps b'.steps
      | none => true) && Flow.branchesEndAlike rest right

end

variable {view}

theorem Flow.branchesEndAlike_iff {left right : List (Branch Step)} :
    Flow.branchesEndAlike view left right = true ↔ ∀ b ∈ left, ∀ b',
      findBranch? b.condition right = some b' → Flow.endsAlike view b.steps b'.steps = true := by
  induction left with
  | nil => simp [branchesEndAlike]
  | cons b left ih =>
    rw [branchesEndAlike, Bool.and_eq_true, ih, List.forall_mem_cons]
    cases findBranch? b.condition right <;> simp

theorem Flow.endsAlike_cons {step step' : Step} {rest rest' : Flow} :
    Flow.endsAlike view (step :: rest) (step' :: rest') = true ↔
      step.endsAlike view step' = true ∧ Flow.endsAlike view rest rest' = true := by
  rw [endsAlike, Bool.and_eq_true]

theorem Step.endsAlike_fork {left right : List (Branch Step)} :
    Step.endsAlike view (.fork left) (.fork right) = true ↔
      (Flow.lastOfFirst? left).map view = (Flow.lastOfFirst? right).map view ∧
        Flow.branchesEndAlike view left right = true := by
  rw [endsAlike, Bool.and_eq_true, beq_iff_eq]

/-- Equal flows whose forks end alike end alike. -/
theorem Flow.map_lastInteraction?_of_same {left right : Flow} (h : Flow.same left right = true)
    (hends : Flow.endsAlike view left right = true) :
    (Flow.lastInteraction? left).map view = (Flow.lastInteraction? right).map view := by
  induction h using Flow.same_induction with
  | nil => rfl
  | interaction message rest rest' hrest h ih =>
    exact map_lastInteraction?_cons (length_eq_of_same hrest) rfl (ih (endsAlike_cons.mp hends).2)
  | loop condition body body' rest rest' hbody hrest h ihbody ih =>
    obtain ⟨hendsBody, hendsRest⟩ := endsAlike_cons.mp hends
    exact map_lastInteraction?_cons (length_eq_of_same hrest) (ihbody hendsBody) (ih hendsRest)
  | fork branches branches' rest rest' hrest h hlength ihbranches ih =>
    obtain ⟨hendsFork, hendsRest⟩ := endsAlike_cons.mp hends
    exact map_lastInteraction?_cons (length_eq_of_same hrest)
      (Step.endsAlike_fork.mp hendsFork).1 (ih hendsRest)

end EndsAlike

section Consecutive

private theorem sum_consecutiveFrom {left paired : List (Branch Step)}
    (h : List.Forall₂ (fun b b' : Branch Step => ∀ context,
      Flow.consecutiveFrom context b.steps = Flow.consecutiveFrom context b'.steps) left paired)
    (context : Option Nat) : (left.map fun b => Flow.consecutiveFrom context b.steps).sum =
      (paired.map fun b => Flow.consecutiveFrom context b.steps).sum := by
  induction h with
  | nil => rfl
  | cons hb _ ih => rw [List.map_cons, List.sum_cons, List.map_cons, List.sum_cons, ih, hb]

theorem Flow.consecutiveFrom_of_same {left right : Flow} (hwell : Flow.WellFormed left)
    (h : Flow.same left right = true) (hends : Flow.endsAlike (·.target) left right = true)
    (context : Option Nat) :
    Flow.consecutiveFrom context left = Flow.consecutiveFrom context right := by
  induction h using Flow.same_induction generalizing context with
  | nil => rfl
  | interaction message rest rest' hrest h ih =>
    rw [consecutiveFrom, consecutiveFrom, ih hwell.2 (endsAlike_cons.mp hends).2]
  | loop condition body body' rest rest' hbody hrest h ihbody ih =>
    obtain ⟨hendsBody, hendsRest⟩ := endsAlike_cons.mp hends
    have htarget : Step.lastTarget? (.loop condition body) =
        Step.lastTarget? (.loop condition body') := map_lastInteraction?_of_same hbody hendsBody
    rw [consecutiveFrom, consecutiveFrom, Step.consecutiveFrom, Step.consecutiveFrom,
      ihbody hwell.1.2 hendsBody, ih hwell.2 hendsRest, htarget]
  | fork branches branches' rest rest' hrest h hlength ihbranches ih =>
    obtain ⟨hendsFork, hendsRest⟩ := endsAlike_cons.mp hends
    obtain ⟨hlast, hendsBranches⟩ := Step.endsAlike_fork.mp hendsFork
    have htarget : Step.lastTarget? (.fork branches) = Step.lastTarget? (.fork branches') := hlast
    obtain ⟨⟨-, hdistinct, hwellBranches⟩, hwellRest⟩ := hwell
    rw [wellFormedBranches_iff] at hwellBranches
    rw [branchesEndAlike_iff] at hendsBranches
    have hpairs : ∀ b ∈ branches, ∃ b', findBranch? b.condition branches' = some b' ∧
        ∀ context, consecutiveFrom context b.steps = consecutiveFrom context b'.steps := by
      intro b hb
      obtain ⟨b', hfind, -, ih⟩ := ihbranches b hb
      exact ⟨b', hfind, ih (hwellBranches b hb).2 (hendsBranches b hb b' hfind)⟩
    obtain ⟨paired, hperm, hpaired⟩ := exists_perm_forall₂ hdistinct hlength hpairs
    rw [consecutiveFrom, consecutiveFrom, Step.consecutiveFrom, Step.consecutiveFrom,
      branchesConsecutiveFrom_eq_sum, branchesConsecutiveFrom_eq_sum, ih hwellRest hendsRest,
      sum_consecutiveFrom hpaired, (hperm.map _).sum_nat, htarget]

end Consecutive

end UseCaseFlow
