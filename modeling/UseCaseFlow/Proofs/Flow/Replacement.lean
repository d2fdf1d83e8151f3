import Mathlib.Algebra.BigOperators.Group.List.Basic
import Mathlib.Logic.Relation
import UseCaseFlow.Proofs.Flow.Predecessor

/-!
# Replaced steps

One step of a flow, at any depth, gives place to other steps. If these are counted as the step was,
behind every target and up to the same end, then so is the whole flow.
-/

namespace UseCaseFlow

/-- One step of the flow, at any depth, is replaced by the steps that the rule has for it. -/
inductive Flow.Replaces (rule : Step → Flow → Prop) : Flow → Flow → Prop
  | here {step : Step} {steps : Flow} (h : rule step steps) (rest : Flow) :
      Replaces rule (step :: rest) (steps ++ rest)
  | later (step : Step) {rest rest' : Flow} (h : Replaces rule rest rest') :
      Replaces rule (step :: rest) (step :: rest')
  | loop (condition : String) {body body' : Flow} (h : Replaces rule body body') (rest : Flow) :
      Replaces rule (.loop condition body :: rest) (.loop condition body' :: rest)
  | fork (before : List (Branch Step)) (condition : String) {steps steps' : Flow}
      (h : Replaces rule steps steps') (after : List (Branch Step)) (rest : Flow) :
      Replaces rule (.fork (before ++ ⟨condition, steps⟩ :: after) :: rest)
        (.fork (before ++ ⟨condition, steps'⟩ :: after) :: rest)

/-- Steps are replaced by the rule, any number of times. -/
def Flow.Becomes (rule : Step → Flow → Prop) : Flow → Flow → Prop :=
  Relation.ReflTransGen (Flow.Replaces rule)

/-- The flows have as many interactions, and as many that cross the line of the system. -/
structure Flow.SameCounts (left right : Flow) : Prop where
  interactions : Flow.interactionCount left = Flow.interactionCount right
  userLevel (entities : List Entity) :
    Flow.userLevelCount entities left = Flow.userLevelCount entities right

/-- Behind every target the flows have as many consecutive interactions, and they end with the same
interaction. -/
structure Flow.SameCourse (left right : Flow) : Prop where
  consecutive (context : Option Nat) :
    Flow.consecutiveFrom context left = Flow.consecutiveFrom context right
  last : Flow.lastInteraction? left = Flow.lastInteraction? right
  nil_iff : left = [] ↔ right = []

section Append

variable {left right : Flow}

theorem Flow.lastInteraction?_append (h : right ≠ []) :
    Flow.lastInteraction? (left ++ right) = Flow.lastInteraction? right := by
  rw [lastInteraction?_eq_bind, List.getLast?_append_of_ne_nil left h, lastInteraction?_eq_bind]

theorem targetBehind?_of_ne_nil (context : Option Nat) (h : left ≠ []) :
    targetBehind? context [left] = (Flow.lastInteraction? left).map (·.target) := by
  rw [Flow.lastInteraction?_eq_bind, targetBehind?]
  cases hlast : left.getLast? with
  | none => simp [h] at hlast
  | some step => rfl

variable (left right)

theorem Flow.consecutiveFrom_append (context : Option Nat) :
    Flow.consecutiveFrom context (left ++ right) = Flow.consecutiveFrom context left +
      Flow.consecutiveFrom (targetBehind? context [left]) right := by
  induction left generalizing context with
  | nil => simp [consecutiveFrom, targetBehind?]
  | cons step rest ih =>
    have htarget : targetBehind? step.lastTarget? [rest] =
        targetBehind? context [step :: rest] := by
      cases rest with
      | nil => rfl
      | cons next rest =>
        rw [targetBehind?_of_ne_nil _ (List.cons_ne_nil _ _),
          targetBehind?_of_ne_nil _ (List.cons_ne_nil _ _), lastInteraction?]
    rw [List.cons_append, consecutiveFrom, consecutiveFrom, ih, htarget, Nat.add_assoc]

theorem Flow.wellFormed_append :
    Flow.WellFormed (left ++ right) ↔ Flow.WellFormed left ∧ Flow.WellFormed right := by
  induction left with
  | nil => simp [WellFormed]
  | cons step rest ih => simp [WellFormed, ih, and_assoc]

theorem Flow.interactions_append :
    Flow.interactions (left ++ right) = Flow.interactions left ++ Flow.interactions right := by
  induction left with
  | nil => rfl
  | cons step rest ih => simp [interactions, ih]

end Append

section SameCourse

variable {left right rest rest' : Flow}

theorem Flow.SameCourse.refl (flow : Flow) : Flow.SameCourse flow flow :=
  ⟨fun _ => rfl, rfl, Iff.rfl⟩

theorem Flow.SameCourse.trans {middle : Flow} (h : Flow.SameCourse left middle)
    (h' : Flow.SameCourse middle right) : Flow.SameCourse left right :=
  ⟨fun context => (h.consecutive context).trans (h'.consecutive context), h.last.trans h'.last,
    h.nil_iff.trans h'.nil_iff⟩

theorem Flow.SameCourse.targetBehind?_eq (h : Flow.SameCourse left right)
    (context : Option Nat) : targetBehind? context [left] = targetBehind? context [right] := by
  by_cases hleft : left = []
  · rw [h.nil_iff.mp hleft, hleft]
  · have hright : right ≠ [] := mt h.nil_iff.mpr hleft
    rw [targetBehind?_of_ne_nil context hleft, targetBehind?_of_ne_nil context hright, h.last]

theorem Flow.SameCourse.append (h : Flow.SameCourse left right)
    (hrest : Flow.SameCourse rest rest') :
    Flow.SameCourse (left ++ rest) (right ++ rest') := by
  constructor
  case consecutive =>
    intro context
    rw [consecutiveFrom_append, consecutiveFrom_append, h.consecutive, hrest.consecutive,
      h.targetBehind?_eq]
  case last =>
    by_cases hnil : rest = []
    · simp [hnil, hrest.nil_iff.mp hnil, h.last]
    · rw [lastInteraction?_append hnil, lastInteraction?_append (mt hrest.nil_iff.mpr hnil),
        hrest.last]
  case nil_iff => simp [h.nil_iff, hrest.nil_iff]

theorem Flow.SameCourse.loop (h : Flow.SameCourse left right) (condition condition' : String) :
    Flow.SameCourse [.loop condition left] [.loop condition' right] := by
  constructor
  case consecutive =>
    intro context
    simpa [consecutiveFrom, Step.consecutiveFrom] using h.consecutive context
  case last => exact h.last
  case nil_iff => simp

/-- A fork has the courses of its branches, and ends with the first one. -/
theorem Flow.SameCourse.fork {branches branches' : List (Branch Step)}
    (hsum : ∀ context, (branches.map fun b => Flow.consecutiveFrom context b.steps).sum =
      (branches'.map fun b => Flow.consecutiveFrom context b.steps).sum)
    (hlast : Flow.lastOfFirst? branches = Flow.lastOfFirst? branches') :
    Flow.SameCourse [.fork branches] [.fork branches'] := by
  constructor
  case consecutive =>
    intro context
    simpa [consecutiveFrom, Step.consecutiveFrom, branchesConsecutiveFrom_eq_sum] using
      hsum context
  case last => exact hlast
  case nil_iff => simp

theorem Flow.SameCourse.branch (h : Flow.SameCourse left right) (condition : String)
    (before after : List (Branch Step)) :
    Flow.SameCourse [.fork (before ++ ⟨condition, left⟩ :: after)]
      [.fork (before ++ ⟨condition, right⟩ :: after)] := by
  apply SameCourse.fork
  · intro context
    simp [h.consecutive context]
  · cases before with
    | nil => exact h.last
    | cons b before => rfl

end SameCourse

/-- In place of a well-formed step the rule has well-formed steps of the same course. -/
structure KeepsCourse (rule : Step → Flow → Prop) : Prop where
  wellFormed {step : Step} {steps : Flow} (h : rule step steps) (hwell : step.WellFormed) :
    Flow.WellFormed steps
  sameCourse {step : Step} {steps : Flow} (h : rule step steps) (hwell : step.WellFormed) :
    Flow.SameCourse [step] steps

section Replaces

variable {rule : Step → Flow → Prop} {flow flow' rest rest' : Flow}

theorem Flow.Replaces.append_right (h : Flow.Replaces rule flow flow') (after : Flow) :
    Flow.Replaces rule (flow ++ after) (flow' ++ after) := by
  induction h with
  | here h rest => simpa using Replaces.here h (rest ++ after)
  | later step h ih => exact .later step ih
  | loop condition h rest ih => exact .loop condition h (rest ++ after)
  | fork before condition h others rest ih => exact .fork before condition h others (rest ++ after)

theorem Flow.Replaces.append_left (h : Flow.Replaces rule flow flow') (before : Flow) :
    Flow.Replaces rule (before ++ flow) (before ++ flow') := by
  induction before with
  | nil => exact h
  | cons step before ih => exact .later step ih

theorem Flow.Becomes.append (h : Flow.Becomes rule flow flow')
    (hrest : Flow.Becomes rule rest rest') :
    Flow.Becomes rule (flow ++ rest) (flow' ++ rest') := by
  have hleft : Flow.Becomes rule (flow ++ rest) (flow' ++ rest) :=
    Relation.ReflTransGen.lift (· ++ rest) (fun _ _ h => h.append_right rest) _ _ h
  have hright : Flow.Becomes rule (flow' ++ rest) (flow' ++ rest') :=
    Relation.ReflTransGen.lift (flow' ++ ·) (fun _ _ h => h.append_left flow') _ _ hrest
  exact hleft.trans hright

theorem Flow.Replaces.sameCourse (hrule : KeepsCourse rule) (h : Flow.Replaces rule flow flow')
    (hwell : Flow.WellFormed flow) : Flow.SameCourse flow flow' := by
  induction h with
  | here h rest => exact (hrule.sameCourse h hwell.1).append (.refl rest)
  | later step h ih => exact (SameCourse.refl [step]).append (ih hwell.2)
  | loop condition h rest ih =>
    exact ((ih hwell.1.2).loop condition condition).append (.refl rest)
  | fork before condition h after rest ih =>
    obtain ⟨⟨-, -, hbranches⟩, -⟩ := hwell
    rw [wellFormedBranches_iff, List.forall_mem_append, List.forall_mem_cons] at hbranches
    exact ((ih hbranches.2.1.2).branch condition before after).append (.refl rest)

theorem Flow.Replaces.wellFormed (hrule : KeepsCourse rule) (h : Flow.Replaces rule flow flow')
    (hwell : Flow.WellFormed flow) : Flow.WellFormed flow' := by
  induction h with
  | here h rest =>
    rw [wellFormed_append]
    exact ⟨hrule.wellFormed h hwell.1, hwell.2⟩
  | later step h ih => exact ⟨hwell.1, ih hwell.2⟩
  | loop condition h rest ih =>
    obtain ⟨⟨hne, hbody⟩, hrest⟩ := hwell
    exact ⟨⟨mt (h.sameCourse hrule hbody).nil_iff.mpr hne, ih hbody⟩, hrest⟩
  | fork before condition h after rest ih =>
    obtain ⟨⟨-, hdistinct, hbranches⟩, hrest⟩ := hwell
    rw [wellFormedBranches_iff, List.forall_mem_append, List.forall_mem_cons] at hbranches
    obtain ⟨hbefore, ⟨hne, hsteps⟩, hafter⟩ := hbranches
    refine ⟨⟨by simp, by simpa using hdistinct, ?_⟩, hrest⟩
    rw [wellFormedBranches_iff, List.forall_mem_append, List.forall_mem_cons]
    exact ⟨hbefore, ⟨mt (h.sameCourse hrule hsteps).nil_iff.mpr hne, ih hsteps⟩, hafter⟩

/-- The interactions of the flow are those that it had, if a replaced step has its own again. -/
theorem Flow.Replaces.interactions_perm
    (hrule : ∀ step steps, rule step steps →
      (Flow.interactions [step]).Perm (Flow.interactions steps))
    (h : Flow.Replaces rule flow flow') :
    (Flow.interactions flow).Perm (Flow.interactions flow') := by
  induction h with
  | here h rest =>
    rw [← List.singleton_append, interactions_append, interactions_append]
    exact (hrule _ _ h).append_right _
  | later step h ih => exact ih.append_left _
  | loop condition h rest ih => exact ih.append_right _
  | fork before condition h after rest ih =>
    simp only [interactions_fork, List.flatMap_append, List.flatMap_cons]
    exact ((ih.append_right _).append_left _).append_right _

theorem Flow.Becomes.sameCourse (hrule : KeepsCourse rule) (h : Flow.Becomes rule flow flow')
    (hwell : Flow.WellFormed flow) : Flow.SameCourse flow flow' ∧ Flow.WellFormed flow' := by
  induction h with
  | refl => exact ⟨.refl flow, hwell⟩
  | tail _ hstep ih =>
    exact ⟨ih.1.trans (hstep.sameCourse hrule ih.2), hstep.wellFormed hrule ih.2⟩

theorem Flow.Becomes.sameCounts
    (hrule : ∀ step steps, rule step steps →
      (Flow.interactions [step]).Perm (Flow.interactions steps))
    (h : Flow.Becomes rule flow flow') : Flow.SameCounts flow flow' := by
  have hperm : (Flow.interactions flow).Perm (Flow.interactions flow') := by
    induction h with
    | refl => exact .refl _
    | tail _ hstep ih => exact ih.trans (hstep.interactions_perm hrule)
  exact ⟨hperm.length_eq, fun entities => hperm.countP_eq (isUserLevel entities)⟩

end Replaces

end UseCaseFlow
