import Mathlib.Data.List.Nodup
import Mathlib.Data.List.Perm.Basic
import UseCaseFlow.Flow.Equality
import UseCaseFlow.Proofs.Flow.Shape

/-!
# Flows that are equal up to the order of branches

What equality says about one step, and how the branches of equal forks are paired. Equal flows have
the same interactions, but not always in the same order.
-/

namespace UseCaseFlow

section Equations

variable {rest right : Flow} {step : Step}

@[simp] theorem Flow.same_nil_left : Flow.same [] right = true ↔ right = [] := by
  cases right <;> simp [same]

theorem Flow.same_cons_left : Flow.same (step :: rest) right = true ↔
    ∃ step' rest', right = step' :: rest' ∧ step.same step' = true ∧
      Flow.same rest rest' = true := by
  cases right <;> simp [same]

theorem Step.same_interaction_left {message : Interaction} :
    Step.same (.interaction message) step = true ↔ step = .interaction message := by
  cases step with
  | interaction other =>
    rw [same, beq_iff_eq, Step.interaction.injEq]
    exact eq_comm
  | loop | fork => simp [same]

theorem Step.same_loop_left {condition : String} {body : Flow} :
    Step.same (.loop condition body) step = true ↔
      ∃ body', step = .loop condition body' ∧ Flow.same body body' = true := by
  cases step with
  | loop condition' body' =>
    simp only [same, Bool.and_eq_true, beq_iff_eq, loop.injEq]
    constructor
    · rintro ⟨rfl, h⟩
      exact ⟨body', ⟨rfl, rfl⟩, h⟩
    · rintro ⟨_, ⟨rfl, rfl⟩, h⟩
      exact ⟨rfl, h⟩
  | interaction | fork => simp [same]

theorem Flow.branchesWithin_iff {left right : List (Branch Step)} :
    Flow.branchesWithin left right = true ↔ ∀ b ∈ left, ∃ b',
      findBranch? b.condition right = some b' ∧ Flow.same b.steps b'.steps = true := by
  induction left with
  | nil => simp [branchesWithin]
  | cons b left ih =>
    rw [branchesWithin, Bool.and_eq_true, ih, List.forall_mem_cons]
    cases findBranch? b.condition right <;> simp

theorem Step.same_fork_left {left : List (Branch Step)} :
    Step.same (.fork left) step = true ↔ ∃ right, step = .fork right ∧
      left.length = right.length ∧ ∀ b ∈ left, ∃ b',
        findBranch? b.condition right = some b' ∧ Flow.same b.steps b'.steps = true := by
  cases step with
  | fork right => simp [same, Flow.branchesWithin_iff]
  | interaction | loop => simp [same]

theorem Flow.length_eq_of_same {left right : Flow} (h : Flow.same left right = true) :
    left.length = right.length := by
  induction left generalizing right with
  | nil => rw [same_nil_left.mp h]
  | cons step rest ih =>
    obtain ⟨step', rest', rfl, -, hrest⟩ := same_cons_left.mp h
    rw [List.length_cons, List.length_cons, ih hrest]

/-- Induction on two equal flows by their first steps, with the flows inside those steps. A branch
is paired with the one that has its condition. -/
theorem Flow.same_induction {P : (left right : Flow) → Flow.same left right = true → Prop}
    (nil : ∀ h, P [] [] h)
    (interaction : ∀ message rest rest' hrest h, P rest rest' hrest →
      P (.interaction message :: rest) (.interaction message :: rest') h)
    (loop : ∀ condition body body' rest rest' hbody hrest h, P body body' hbody →
      P rest rest' hrest → P (.loop condition body :: rest) (.loop condition body' :: rest') h)
    (fork : ∀ branches branches' rest rest' hrest h, branches.length = branches'.length →
      (∀ b ∈ branches, ∃ b', findBranch? b.condition branches' = some b' ∧
        ∃ hb, P b.steps b'.steps hb) →
      P rest rest' hrest → P (.fork branches :: rest) (.fork branches' :: rest') h)
    {left right : Flow} (h : Flow.same left right = true) : P left right h := by
  induction left using Flow.induction generalizing right with
  | nil =>
    obtain rfl := same_nil_left.mp h
    exact nil h
  | interaction message rest ih =>
    obtain ⟨step, rest', rfl, hstep, hrest⟩ := same_cons_left.mp h
    obtain rfl := Step.same_interaction_left.mp hstep
    exact interaction message rest rest' hrest h (ih hrest)
  | loop condition body rest ihbody ih =>
    obtain ⟨step, rest', rfl, hstep, hrest⟩ := same_cons_left.mp h
    obtain ⟨body', rfl, hbody⟩ := Step.same_loop_left.mp hstep
    exact loop condition body body' rest rest' hbody hrest h (ihbody hbody) (ih hrest)
  | fork branches rest ihbranches ih =>
    obtain ⟨step, rest', rfl, hstep, hrest⟩ := same_cons_left.mp h
    obtain ⟨branches', rfl, hlength, hbranches⟩ := Step.same_fork_left.mp hstep
    refine fork branches branches' rest rest' hrest h hlength (fun b hb => ?_) (ih hrest)
    obtain ⟨b', hfind, hsame⟩ := hbranches b hb
    exact ⟨b', hfind, hsame, ihbranches b hb hsame⟩

end Equations

section Pairing

variable {left right : List (Branch Step)} {R : Branch Step → Branch Step → Prop}

theorem mem_of_findBranch? {condition : String} {b : Branch Step}
    (h : findBranch? condition right = some b) : b ∈ right :=
  List.mem_of_find?_eq_some h

theorem condition_of_findBranch? {condition : String} {b : Branch Step}
    (h : findBranch? condition right = some b) : b.condition = condition := by
  have hfound := List.find?_some h
  exact beq_iff_eq.mp hfound

private theorem exists_forall₂ (h : ∀ b ∈ left, ∃ b', R b b') :
    ∃ paired, List.Forall₂ R left paired := by
  induction left with
  | nil => exact ⟨[], .nil⟩
  | cons b left ih =>
    rw [List.forall_mem_cons] at h
    obtain ⟨b', hb⟩ := h.1
    obtain ⟨paired, hpaired⟩ := ih h.2
    exact ⟨b' :: paired, .cons hb hpaired⟩

private theorem paired_within {paired : List (Branch Step)}
    (h : List.Forall₂ (fun b b' => findBranch? b.condition right = some b' ∧ R b b') left paired) :
    paired ⊆ right ∧ paired.map (·.condition) = left.map (·.condition) := by
  induction h with
  | nil => simp
  | cons hb _ ih =>
    constructor
    · exact List.cons_subset.mpr ⟨mem_of_findBranch? hb.1, ih.1⟩
    · rw [List.map_cons, List.map_cons, condition_of_findBranch? hb.1, ih.2]

/-- If each branch is paired with the one of its condition, and none is left over, the branches on
the right are those of the pairs in another order. -/
theorem exists_perm_forall₂ (hdistinct : (left.map (·.condition)).Nodup)
    (hlength : left.length = right.length)
    (h : ∀ b ∈ left, ∃ b', findBranch? b.condition right = some b' ∧ R b b') :
    ∃ paired, paired.Perm right ∧ List.Forall₂ R left paired := by
  obtain ⟨paired, hpaired⟩ := exists_forall₂ h
  obtain ⟨hwithin, hconditions⟩ := paired_within hpaired
  have hnodup : paired.Nodup := by
    rw [← hconditions] at hdistinct
    exact hdistinct.of_map
  refine ⟨paired, ?_, hpaired.imp fun _ _ hb => hb.2⟩
  refine (List.subperm_of_subset hnodup hwithin).perm_of_length_le (Nat.le_of_eq ?_)
  rw [← hlength, hpaired.length_eq]

end Pairing

private theorem flatMap_perm {left paired : List (Branch Step)}
    (h : List.Forall₂ (fun b b' : Branch Step =>
      (Flow.interactions b.steps).Perm (Flow.interactions b'.steps)) left paired) :
    (left.flatMap fun b => Flow.interactions b.steps).Perm
      (paired.flatMap fun b => Flow.interactions b.steps) := by
  induction h with
  | nil => exact .nil
  | cons hb _ ih => exact hb.append ih

theorem Flow.interactions_perm_of_same {left right : Flow} (hwell : Flow.WellFormed left)
    (h : Flow.same left right = true) :
    (Flow.interactions left).Perm (Flow.interactions right) := by
  induction h using Flow.same_induction with
  | nil => exact .nil
  | interaction message rest rest' hrest h ih => exact (ih hwell.2).cons message
  | loop condition body body' rest rest' hbody hrest h ihbody ih =>
    exact (ihbody hwell.1.2).append (ih hwell.2)
  | fork branches branches' rest rest' hrest h hlength ihbranches ih =>
    obtain ⟨⟨-, hdistinct, hwellBranches⟩, hwellRest⟩ := hwell
    rw [wellFormedBranches_iff] at hwellBranches
    have hpairs : ∀ b ∈ branches, ∃ b', findBranch? b.condition branches' = some b' ∧
        (Flow.interactions b.steps).Perm (Flow.interactions b'.steps) := by
      intro b hb
      obtain ⟨b', hfind, -, ih⟩ := ihbranches b hb
      exact ⟨b', hfind, ih (hwellBranches b hb).2⟩
    obtain ⟨paired, hperm, hpaired⟩ := exists_perm_forall₂ hdistinct hlength hpairs
    rw [interactions_fork, interactions_fork]
    exact ((flatMap_perm hpaired).trans (hperm.flatMap_right _)).append (ih hwellRest)

end UseCaseFlow
