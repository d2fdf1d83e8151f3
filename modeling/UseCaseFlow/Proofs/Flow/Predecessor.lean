import Mathlib.Algebra.GroupWithZero.Nat
import UseCaseFlow.Metrics
import UseCaseFlow.Proofs.Flow.Shape

/-!
# The interaction before an interaction

Where an interaction continues from, said by its place in the flow: from the end of the step before
it or, at the start of a block, from where the block continues. Counting the interactions that
start there is what the consecutive count does.
-/

namespace UseCaseFlow

/-- The interaction ends the step. A fork ends with its first branch. -/
inductive Step.EndsWith : Step → Interaction → Prop
  | interaction (message : Interaction) : EndsWith (.interaction message) message
  | loop {condition : String} {body : Flow} {step : Step} {message : Interaction}
      (hlast : body.getLast? = some step) (h : EndsWith step message) :
      EndsWith (.loop condition body) message
  | fork {branches : List (Branch Step)} {b : Branch Step} {step : Step} {message : Interaction}
      (hfirst : branches.head? = some b) (hlast : b.steps.getLast? = some step)
      (h : EndsWith step message) : EndsWith (.fork branches) message

/-- An interaction and the steps before it: those in its own flow first, then those before the
blocks around it, from the inside out. -/
structure Occurrence where
  message : Interaction
  before : List Flow

def Step.blocks : Step → List Flow
  | .interaction _ => []
  | .loop _ body => [body]
  | .fork branches => branches.map (·.steps)

/-- The occurrence is one of the flow: its message stands there, behind those steps. -/
inductive Flow.Holds : Flow → Occurrence → Prop
  | here (before : Flow) (message : Interaction) (after : Flow) :
      Holds (before ++ .interaction message :: after) ⟨message, [before]⟩
  | inside (before : Flow) {step : Step} (after : Flow) {block : Flow} {o : Occurrence}
      (hblock : block ∈ step.blocks) (h : Holds block o) :
      Holds (before ++ step :: after) ⟨o.message, o.before ++ [before]⟩

/-- The target that is continued from behind those steps; `context` if no step comes before. -/
inductive ContinuesFrom (context : Option Nat) : List Flow → Option Nat → Prop
  | start : ContinuesFrom context [] context
  | outward {outer : List Flow} {target : Option Nat} (h : ContinuesFrom context outer target) :
      ContinuesFrom context ([] :: outer) target
  | after {before : Flow} {outer : List Flow} {step : Step} {message : Interaction}
      (hlast : before.getLast? = some step) (h : step.EndsWith message) :
      ContinuesFrom context (before :: outer) (some message.target)

mutual

/-- The interactions of the step, of which `levels` come before. -/
def Step.occurrencesAfter (levels : List Flow) : Step → List Occurrence
  | .interaction message => [⟨message, levels⟩]
  | .loop _ body => Flow.occurrencesAfter levels [] body
  | .fork branches => Flow.branchOccurrencesAfter levels branches

/-- The interactions of the rest of a flow, of which the steps `done` come before. -/
def Flow.occurrencesAfter (outer : List Flow) (done : Flow) : Flow → List Occurrence
  | [] => []
  | step :: rest =>
    step.occurrencesAfter (done :: outer) ++ Flow.occurrencesAfter outer (done ++ [step]) rest

def Flow.branchOccurrencesAfter (levels : List Flow) : List (Branch Step) → List Occurrence
  | [] => []
  | b :: rest =>
    Flow.occurrencesAfter levels [] b.steps ++ Flow.branchOccurrencesAfter levels rest

end

def Flow.occurrences (flow : Flow) : List Occurrence :=
  Flow.occurrencesAfter [] [] flow

section Ends

theorem Flow.lastInteraction?_eq_bind (flow : Flow) :
    Flow.lastInteraction? flow = flow.getLast?.bind Step.last? := by
  induction flow with
  | nil => rfl
  | cons step rest ih =>
    cases rest with
    | nil => rfl
    | cons next rest => rw [lastInteraction?, ih, List.getLast?_cons_cons]

theorem Flow.lastOfFirst?_eq_bind (branches : List (Branch Step)) :
    Flow.lastOfFirst? branches = branches.head?.bind fun b => Flow.lastInteraction? b.steps := by
  cases branches <;> rfl

theorem Step.last?_eq_some_of_endsWith {step : Step} {message : Interaction}
    (h : step.EndsWith message) : step.last? = some message := by
  induction h with
  | interaction message => rfl
  | loop hlast h ih =>
    rw [last?, Flow.lastInteraction?_eq_bind, hlast, Option.bind_some, ih]
  | fork hfirst hlast h ih =>
    rw [last?, Flow.lastOfFirst?_eq_bind, hfirst, Option.bind_some,
      Flow.lastInteraction?_eq_bind, hlast, Option.bind_some, ih]

theorem Step.endsWith_of_last? (step : Step) (message : Interaction)
    (h : step.last? = some message) : step.EndsWith message := by
  have hflow (flow : Flow) : ∀ step ∈ flow, ∀ message, step.last? = some message →
      step.EndsWith message := by
    induction flow using Flow.induction with
    | nil => simp
    | interaction message rest ih =>
      rw [List.forall_mem_cons]
      refine ⟨fun other h => ?_, ih⟩
      obtain rfl : message = other := Option.some.inj h
      exact .interaction message
    | loop condition body rest ihbody ih =>
      rw [List.forall_mem_cons]
      refine ⟨fun message h => ?_, ih⟩
      rw [Step.last?, Flow.lastInteraction?_eq_bind, Option.bind_eq_some_iff] at h
      obtain ⟨step, hlast, hstep⟩ := h
      exact .loop hlast (ihbody step (List.mem_of_getLast? hlast) message hstep)
    | fork branches rest ihbranches ih =>
      rw [List.forall_mem_cons]
      refine ⟨fun message h => ?_, ih⟩
      rw [Step.last?, Flow.lastOfFirst?_eq_bind, Option.bind_eq_some_iff] at h
      obtain ⟨b, hfirst, h⟩ := h
      rw [Flow.lastInteraction?_eq_bind, Option.bind_eq_some_iff] at h
      obtain ⟨step, hlast, hstep⟩ := h
      exact .fork hfirst hlast (ihbranches b (List.mem_of_mem_head? hfirst) step
        (List.mem_of_getLast? hlast) message hstep)
  exact hflow [step] step List.mem_cons_self message h

theorem Step.last?_eq_some_iff {step : Step} {message : Interaction} :
    step.last? = some message ↔ step.EndsWith message :=
  ⟨step.endsWith_of_last? message, last?_eq_some_of_endsWith⟩

end Ends

section Occurrences

theorem Flow.branchOccurrencesAfter_eq_flatMap (levels : List Flow)
    (branches : List (Branch Step)) : Flow.branchOccurrencesAfter levels branches =
      branches.flatMap fun b => Flow.occurrencesAfter levels [] b.steps := by
  induction branches with
  | nil => rfl
  | cons b rest ih => rw [branchOccurrencesAfter, ih, List.flatMap_cons]

theorem Flow.occurrencesAfter_append (outer : List Flow) (done before rest : Flow) :
    Flow.occurrencesAfter outer done (before ++ rest) =
      Flow.occurrencesAfter outer done before ++
        Flow.occurrencesAfter outer (done ++ before) rest := by
  induction before generalizing done with
  | nil => simp [occurrencesAfter]
  | cons step before ih =>
    rw [List.cons_append, occurrencesAfter, occurrencesAfter, ih, List.append_assoc,
      List.append_assoc, List.singleton_append]

theorem Step.mem_occurrencesAfter_of_mem_blocks {step : Step} {block : Flow} {levels : List Flow}
    {o : Occurrence} (hblock : block ∈ step.blocks)
    (h : o ∈ Flow.occurrencesAfter levels [] block) : o ∈ step.occurrencesAfter levels := by
  cases step with
  | interaction message => simp [blocks] at hblock
  | loop condition body =>
    obtain rfl : block = body := List.mem_singleton.mp hblock
    exact h
  | fork branches =>
    obtain ⟨b, hb, rfl⟩ := List.mem_map.mp hblock
    rw [occurrencesAfter, Flow.branchOccurrencesAfter_eq_flatMap]
    exact List.mem_flatMap.mpr ⟨b, hb, h⟩

theorem Flow.mem_occurrencesAfter_of_holds {flow : Flow} {o : Occurrence} (h : flow.Holds o)
    (outer : List Flow) :
    ⟨o.message, o.before ++ outer⟩ ∈ Flow.occurrencesAfter outer [] flow := by
  induction h generalizing outer with
  | here before message after =>
    rw [occurrencesAfter_append, List.nil_append, occurrencesAfter]
    exact List.mem_append_right _ (List.mem_append_left _ List.mem_cons_self)
  | @inside before step after block o hblock h ih =>
    rw [occurrencesAfter_append, List.nil_append, occurrencesAfter]
    refine List.mem_append_right _ (List.mem_append_left _ ?_)
    refine Step.mem_occurrencesAfter_of_mem_blocks hblock ?_
    simpa using ih (before :: outer)

theorem Flow.holds_of_mem_occurrencesAfter {flow : Flow} {outer : List Flow} {done : Flow}
    {o : Occurrence} (h : o ∈ Flow.occurrencesAfter outer done flow) :
    ∃ levels, Flow.Holds (done ++ flow) ⟨o.message, levels⟩ ∧ o.before = levels ++ outer := by
  induction flow using Flow.induction generalizing outer done o with
  | nil => simp [occurrencesAfter] at h
  | interaction message rest ih =>
    rw [occurrencesAfter, List.mem_append] at h
    rcases h with h | h
    · obtain rfl := List.mem_singleton.mp h
      exact ⟨_, .here done message rest, rfl⟩
    · simpa using ih h
  | loop condition body rest ihbody ih =>
    rw [occurrencesAfter, List.mem_append] at h
    rcases h with h | h
    · obtain ⟨levels, hholds, hbefore⟩ := ihbody h
      refine ⟨levels ++ [done], ?_, by simp [hbefore]⟩
      exact .inside done rest (List.mem_singleton_self body) hholds
    · simpa using ih h
  | fork branches rest ihbranches ih =>
    rw [occurrencesAfter, List.mem_append] at h
    rcases h with h | h
    · rw [Step.occurrencesAfter, branchOccurrencesAfter_eq_flatMap] at h
      obtain ⟨b, hb, h⟩ := List.mem_flatMap.mp h
      obtain ⟨levels, hholds, hbefore⟩ := ihbranches b hb h
      refine ⟨levels ++ [done], ?_, by simp [hbefore]⟩
      exact .inside done rest (List.mem_map_of_mem hb) hholds
    · simpa using ih h

theorem Flow.mem_occurrences_iff {flow : Flow} {o : Occurrence} :
    o ∈ flow.occurrences ↔ flow.Holds o := by
  constructor
  · intro h
    obtain ⟨levels, hholds, hbefore⟩ := holds_of_mem_occurrencesAfter h
    rw [List.append_nil] at hbefore
    rwa [← hbefore] at hholds
  · intro h
    have hmem := mem_occurrencesAfter_of_holds h []
    rwa [List.append_nil] at hmem

/-- Every interaction occurs once for each time that the diagram lists it. -/
theorem Flow.map_message_occurrencesAfter (outer : List Flow) (done flow : Flow) :
    (Flow.occurrencesAfter outer done flow).map (·.message) = Flow.interactions flow := by
  induction flow using Flow.induction generalizing outer done with
  | nil => rfl
  | interaction message rest ih =>
    rw [occurrencesAfter, List.map_append, ih, interactions_interaction]
    rfl
  | loop condition body rest ihbody ih =>
    rw [occurrencesAfter, List.map_append, ih, Step.occurrencesAfter, ihbody, interactions_loop]
  | fork branches rest ihbranches ih =>
    rw [occurrencesAfter, List.map_append, ih, Step.occurrencesAfter,
      branchOccurrencesAfter_eq_flatMap, List.map_flatMap, interactions_fork]
    rw [List.flatMap_def, List.flatMap_def, List.map_congr_left fun b hb => ihbranches b hb _ _]

theorem Flow.map_message_occurrences (flow : Flow) :
    flow.occurrences.map (·.message) = Flow.interactions flow :=
  map_message_occurrencesAfter [] [] flow

end Occurrences

section Count

variable (context : Option Nat)

/-- The target that is continued from, by search from the inside out. -/
def targetBehind? : List Flow → Option Nat
  | [] => context
  | before :: outer =>
    match before.getLast? with
    | some step => step.lastTarget?
    | none => targetBehind? outer

variable {context}

theorem continuesFrom_iff {levels : List Flow} {target : Nat} :
    ContinuesFrom context levels (some target) ↔ targetBehind? context levels = some target := by
  induction levels with
  | nil =>
    constructor
    · intro h
      cases h
      rfl
    · rintro rfl
      exact .start
  | cons before outer ih =>
    cases hlast : before.getLast? with
    | none =>
      obtain rfl := List.getLast?_eq_none_iff.mp hlast
      rw [targetBehind?, List.getLast?_nil, ← ih]
      constructor
      · rintro (_ | ⟨h⟩ | ⟨hstep, -⟩)
        · exact h
        · simp at hstep
      · exact .outward
    | some step =>
      rw [targetBehind?, hlast]
      constructor
      · intro h
        cases h with
        | outward => simp at hlast
        | after hlast' hend =>
          obtain rfl := Option.some.inj (hlast.symm.trans hlast')
          exact congrArg (Option.map (·.target)) (Step.last?_eq_some_iff.mpr hend)
      · intro h
        obtain ⟨message, hend, rfl⟩ := Option.map_eq_some_iff.mp h
        exact .after hlast (Step.last?_eq_some_iff.mp hend)

instance (levels : List Flow) (target : Nat) :
    Decidable (ContinuesFrom context levels (some target)) :=
  decidable_of_iff _ continuesFrom_iff.symm

/-- Whether the interaction starts where the one before it ended. -/
def Occurrence.Continues (context : Option Nat) (o : Occurrence) : Prop :=
  ContinuesFrom context o.before (some o.message.source)

instance : DecidablePred (Occurrence.Continues context) :=
  fun o => inferInstanceAs (Decidable (ContinuesFrom context o.before (some o.message.source)))

theorem targetBehind?_concat (done : Flow) (step : Step) (outer : List Flow) :
    targetBehind? context ((done ++ [step]) :: outer) = step.lastTarget? := by
  rw [targetBehind?, List.getLast?_concat]

theorem Flow.branchesConsecutiveFrom_eq_sum (branches : List (Branch Step)) :
    Flow.branchesConsecutiveFrom context branches =
      (branches.map fun b => Flow.consecutiveFrom context b.steps).sum := by
  induction branches with
  | nil => rfl
  | cons b rest ih => rw [branchesConsecutiveFrom, ih, List.map_cons, List.sum_cons]

/-- At every place in a flow, the count carries the target that is continued from there. -/
theorem Flow.countP_occurrencesAfter (outer : List Flow) (done flow : Flow) :
    (Flow.occurrencesAfter outer done flow).countP (Occurrence.Continues context) =
      Flow.consecutiveFrom (targetBehind? context (done :: outer)) flow := by
  induction flow using Flow.induction generalizing outer done with
  | nil => rfl
  | interaction message rest ih =>
    have hhere : Occurrence.Continues context ⟨message, done :: outer⟩ ↔
        targetBehind? context (done :: outer) = some message.source := continuesFrom_iff
    rw [occurrencesAfter, List.countP_append, ih, consecutiveFrom, targetBehind?_concat,
      Step.occurrencesAfter, Step.consecutiveFrom, List.countP_singleton]
    simp only [decide_eq_true_eq, hhere]
  | loop condition body rest ihbody ih =>
    rw [occurrencesAfter, List.countP_append, ih, consecutiveFrom, targetBehind?_concat,
      Step.occurrencesAfter, Step.consecutiveFrom, ihbody]
    rfl
  | fork branches rest ihbranches ih =>
    have hbranches : branches.map (fun b =>
          (Flow.occurrencesAfter (done :: outer) [] b.steps).countP
            (Occurrence.Continues context)) =
        branches.map fun b =>
          Flow.consecutiveFrom (targetBehind? context (done :: outer)) b.steps :=
      List.map_congr_left fun b hb => ihbranches b hb (done :: outer) []
    rw [occurrencesAfter, List.countP_append, ih, consecutiveFrom, targetBehind?_concat,
      Step.occurrencesAfter, Step.consecutiveFrom, branchOccurrencesAfter_eq_flatMap,
      branchesConsecutiveFrom_eq_sum, List.countP_flatMap]
    exact congrArg (List.sum · + _) hbranches

/-- The consecutive count is the number of interactions that start where the interaction before
them ended, or at the given target if none comes before. -/
theorem Flow.consecutiveFrom_eq_countP (context : Option Nat) (flow : Flow) :
    Flow.consecutiveFrom context flow = flow.occurrences.countP (Occurrence.Continues context) ∧
      Flow.consecutiveCount flow = flow.occurrences.countP (Occurrence.Continues none) :=
  ⟨(countP_occurrencesAfter [] [] flow).symm, (countP_occurrencesAfter [] [] flow).symm⟩

end Count

end UseCaseFlow
