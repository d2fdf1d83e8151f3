import Mathlib.Logic.Relation
import UseCaseFlow.Proofs.Flow.Predecessor

/-!
# The main path of a flow

The main path enters every loop and the first branch of every fork. A flow ends where its main path
ends. The search for that end goes from the last step into the blocks, one level deeper each time,
so that it stops at an interaction.
-/

namespace UseCaseFlow

mutual

def Step.mainPath : Step → List Interaction
  | .interaction message => [message]
  | .loop _ body => Flow.mainPath body
  | .fork branches => Flow.mainPathOfFirst branches

/-- The interactions that are met if every loop is entered once, and of every fork the first
branch. -/
def Flow.mainPath : Flow → List Interaction
  | [] => []
  | step :: rest => step.mainPath ++ Flow.mainPath rest

def Flow.mainPathOfFirst : List (Branch Step) → List Interaction
  | [] => []
  | b :: _ => Flow.mainPath b.steps

end

/-- The step at which the search for the end of a block goes on. -/
def Step.inner? : Step → Option Step
  | .interaction _ => none
  | .loop _ body => body.getLast?
  | .fork branches => branches.head?.bind fun b => b.steps.getLast?

/-- The search for the end of one step comes to the other. -/
def Step.LeadsTo : Step → Step → Prop :=
  Relation.ReflTransGen fun outer inner => outer.inner? = some inner

section Search

variable {step inner : Step} {flow : Flow} {message : Interaction}

theorem Step.depth_le_of_mem (h : step ∈ flow) : step.depth ≤ Flow.depth flow := by
  induction flow with
  | nil => contradiction
  | cons next rest ih =>
    cases h with
    | head => exact Nat.le_max_left _ _
    | tail _ h => exact Nat.le_trans (ih h) (Nat.le_max_right _ _)

theorem Step.depth_lt_of_inner? (h : step.inner? = some inner) : inner.depth < step.depth := by
  cases step with
  | interaction message => contradiction
  | loop condition body => exact Nat.lt_succ_of_le (depth_le_of_mem (List.mem_of_getLast? h))
  | fork branches =>
    obtain ⟨b, hfirst, hlast⟩ := Option.bind_eq_some_iff.mp h
    have hbranch := Flow.branchDepth_le.mp (Nat.le_refl (Flow.branchDepth branches)) b
      (List.mem_of_mem_head? hfirst)
    exact Nat.lt_succ_of_le
      (Nat.le_trans (depth_le_of_mem (List.mem_of_getLast? hlast)) hbranch)

theorem Flow.WellFormed.of_mem (hwell : Flow.WellFormed flow) (h : step ∈ flow) :
    step.WellFormed := by
  induction flow with
  | nil => contradiction
  | cons next rest ih =>
    cases h with
    | head => exact hwell.1
    | tail _ h => exact ih hwell.2 h

/-- No block of a well-formed flow is empty, so that the search goes on until an interaction. -/
theorem Step.WellFormed.exists_inner? (hwell : step.WellFormed) :
    (∃ message, step = .interaction message) ∨
      ∃ inner, step.inner? = some inner ∧ inner.WellFormed := by
  cases step with
  | interaction message => exact Or.inl ⟨message, rfl⟩
  | loop condition body =>
    have hlast := List.getLast?_eq_some_getLast hwell.1
    exact Or.inr ⟨_, hlast, hwell.2.of_mem (List.mem_of_getLast? hlast)⟩
  | fork branches =>
    obtain ⟨hne, -, hbranches⟩ := hwell
    rw [Flow.wellFormedBranches_iff] at hbranches
    cases branches with
    | nil => contradiction
    | cons b rest =>
      obtain ⟨hsteps, hflow⟩ := hbranches b List.mem_cons_self
      have hlast := List.getLast?_eq_some_getLast hsteps
      exact Or.inr ⟨_, hlast, hflow.of_mem (List.mem_of_getLast? hlast)⟩

theorem Step.WellFormed.exists_leadsTo (hwell : step.WellFormed) :
    ∃ message, step.LeadsTo (.interaction message) := by
  -- The induction is on the depth, which every move of the search makes smaller.
  induction hdepth : step.depth using Nat.strongRecOn generalizing step with
  | ind depth ih =>
    rcases hwell.exists_inner? with ⟨message, rfl⟩ | ⟨inner, hinner, hwell⟩
    · exact ⟨message, .refl⟩
    · have hlt := depth_lt_of_inner? hinner
      obtain ⟨message, hleads⟩ := ih inner.depth (hdepth ▸ hlt) hwell rfl
      exact ⟨message, .head hinner hleads⟩

theorem Step.last?_of_leadsTo (h : step.LeadsTo (.interaction message)) :
    step.last? = some message := by
  rw [last?_eq_some_iff]
  induction h using Relation.ReflTransGen.head_induction_on with
  | refl => exact .interaction message
  | @head step inner hinner _ ih =>
    cases step with
    | interaction other => contradiction
    | loop condition body => exact .loop hinner ih
    | fork branches =>
      obtain ⟨b, hfirst, hlast⟩ := Option.bind_eq_some_iff.mp hinner
      exact .fork hfirst hlast ih

end Search

section Path

variable {step : Step} {flow rest : Flow}

theorem Flow.WellFormed.exists_lastInteraction? (hwell : Flow.WellFormed flow) (hne : flow ≠ []) :
    ∃ message, Flow.lastInteraction? flow = some message := by
  have hlast := List.getLast?_eq_some_getLast hne
  obtain ⟨message, hleads⟩ := (hwell.of_mem (List.mem_of_getLast? hlast)).exists_leadsTo
  refine ⟨message, ?_⟩
  rw [lastInteraction?_eq_bind, hlast, Option.bind_some, Step.last?_of_leadsTo hleads]

theorem Flow.getLast?_mainPath_cons (hwell : Flow.WellFormed rest)
    (hstep : step.mainPath.getLast? = step.last?)
    (hrest : (Flow.mainPath rest).getLast? = Flow.lastInteraction? rest) :
    (Flow.mainPath (step :: rest)).getLast? = Flow.lastInteraction? (step :: rest) := by
  rw [mainPath, List.getLast?_append, hrest, hstep]
  cases rest with
  | nil => rfl
  | cons next rest =>
    obtain ⟨message, hlast⟩ := hwell.exists_lastInteraction? (List.cons_ne_nil _ _)
    rw [lastInteraction?, hlast, Option.some_or]

theorem Flow.getLast?_mainPath (hwell : Flow.WellFormed flow) :
    (Flow.mainPath flow).getLast? = Flow.lastInteraction? flow := by
  induction flow using Flow.induction with
  | nil => rfl
  | interaction message rest ih => exact getLast?_mainPath_cons hwell.2 rfl (ih hwell.2)
  | loop condition body rest ihbody ih =>
    exact getLast?_mainPath_cons hwell.2 (ihbody hwell.1.2) (ih hwell.2)
  | fork branches rest ihbranches ih =>
    obtain ⟨⟨hne, -, hbranches⟩, hrest⟩ := hwell
    rw [wellFormedBranches_iff] at hbranches
    refine getLast?_mainPath_cons hrest ?_ (ih hrest)
    cases branches with
    | nil => contradiction
    | cons b others =>
      have hb : b ∈ b :: others := List.mem_cons_self
      exact ihbranches b hb (hbranches b hb).2

end Path

/-- The search for the end of a flow starts at its last step and stops at an interaction, which is
the last one on the main path. Nothing but the last step matters for it. -/
theorem Flow.lastInteraction?_on_mainPath {flow : Flow} (hwell : Flow.WellFormed flow)
    (hne : flow ≠ []) : ∃ last message, flow.getLast? = some last ∧
      last.LeadsTo (.interaction message) ∧ Flow.lastInteraction? flow = some message ∧
      (Flow.mainPath flow).getLast? = some message ∧
      ∀ other : Flow, other.getLast? = some last → Flow.lastInteraction? other = some message := by
  have hlast := List.getLast?_eq_some_getLast hne
  obtain ⟨message, hleads⟩ := (hwell.of_mem (List.mem_of_getLast? hlast)).exists_leadsTo
  have hend (other : Flow) (h : other.getLast? = some (flow.getLast hne)) :
      Flow.lastInteraction? other = some message := by
    rw [lastInteraction?_eq_bind, h, Option.bind_some, Step.last?_of_leadsTo hleads]
  refine ⟨_, message, hlast, hleads, hend flow hlast, ?_, hend⟩
  rw [getLast?_mainPath hwell, hend flow hlast]

/-- A message, and a loop that ends with a fork. -/
def windingFlow : Flow :=
  [.interaction ⟨0, 1, false, "a"⟩, .loop "l" [.interaction ⟨1, 2, false, "b"⟩,
    .fork [⟨"x", [.interaction ⟨2, 0, true, "c"⟩]⟩, ⟨"y", [.interaction ⟨2, 1, false, "d"⟩]⟩]]]

theorem Flow.lastInteraction?_windingFlow :
    Flow.WellFormed windingFlow ∧ windingFlow ≠ [] ∧
    Flow.mainPath windingFlow =
      [⟨0, 1, false, "a"⟩, ⟨1, 2, false, "b"⟩, ⟨2, 0, true, "c"⟩] ∧
    Flow.lastInteraction? windingFlow = some ⟨2, 0, true, "c"⟩ ∧
    ∀ other : Flow, other.getLast? = windingFlow.getLast? →
      Flow.lastInteraction? other = some ⟨2, 0, true, "c"⟩ := by
  have hwell : Flow.WellFormed windingFlow := by decide
  have hne : windingFlow ≠ [] := List.cons_ne_nil _ _
  have hpath : Flow.mainPath windingFlow =
    [⟨0, 1, false, "a"⟩, ⟨1, 2, false, "b"⟩, ⟨2, 0, true, "c"⟩] := rfl
  obtain ⟨last, message, hlast, -, hend, hends, hother⟩ := lastInteraction?_on_mainPath hwell hne
  rw [hpath] at hends
  obtain rfl : ⟨2, 0, true, "c"⟩ = message := Option.some.inj hends
  rw [hlast]
  exact ⟨hwell, hne, hpath, hend, hother⟩

end UseCaseFlow
