import UseCaseFlow.Proofs.Flow.Rearrangement
import UseCaseFlow.Proofs.Flow.Same

/-!
# Equality is reordering of branches

Two flows are equal exactly if the branches of forks in the first one can change places, at any
depth, until it is the second one. Equality looks for each branch on the left among those on the
right; as the conditions of a fork differ, this pairs the branches off, and so equality is an
equivalence.
-/

namespace UseCaseFlow

/-- The branches of a fork change places. -/
inductive Step.Reorders : Step → Flow → Prop
  | branches {left right : List (Branch Step)} (h : left.Perm right) :
      Reorders (.fork left) [.fork right]

section Pairing

variable {left paired right : List (Branch Step)}

theorem findBranch?_eq_some_iff (hdistinct : (right.map (·.condition)).Nodup) {condition : String}
    {b : Branch Step} :
    findBranch? condition right = some b ↔ b ∈ right ∧ b.condition = condition := by
  constructor
  · exact fun h => ⟨mem_of_findBranch? h, condition_of_findBranch? h⟩
  · rintro ⟨hmem, rfl⟩
    cases hfind : findBranch? b.condition right with
    | none =>
      rw [findBranch?, List.find?_eq_none] at hfind
      simpa using hfind b hmem
    | some found =>
      have hsame := condition_of_findBranch? hfind
      rw [List.inj_on_of_nodup_map hdistinct (mem_of_findBranch? hfind) hmem hsame]

/-- The branches have the same condition and equal steps. -/
structure Branch.Same (b b' : Branch Step) : Prop where
  condition : b.condition = b'.condition
  steps : Flow.same b.steps b'.steps = true

theorem map_condition_eq (h : List.Forall₂ Branch.Same left paired) :
    left.map (·.condition) = paired.map (·.condition) := by
  induction h with
  | nil => rfl
  | cons hb _ ih => rw [List.map_cons, List.map_cons, hb.condition, ih]

theorem exists_mem_of_forall₂ (h : List.Forall₂ Branch.Same left paired) :
    ∀ b ∈ left, ∃ b' ∈ paired, b.Same b' := by
  induction h with
  | nil => simp
  | @cons b b' left paired hb _ ih =>
    rw [List.forall_mem_cons]
    refine ⟨⟨b', List.mem_cons_self, hb⟩, ?_⟩
    intro c hc
    obtain ⟨c', hc', hsame⟩ := ih c hc
    exact ⟨c', List.mem_cons_of_mem _ hc', hsame⟩

/-- Forks are equal if the branches of one can be paired with those of the other. -/
theorem Step.same_fork_of_pairing (hdistinct : (left.map (·.condition)).Nodup)
    (hpaired : List.Forall₂ Branch.Same left paired) (hperm : paired.Perm right) :
    Step.same (.fork left) (.fork right) = true := by
  rw [map_condition_eq hpaired, (hperm.map (·.condition)).nodup_iff] at hdistinct
  apply same_fork_left.mpr
  refine ⟨right, rfl, hpaired.length_eq.trans hperm.length_eq, ?_⟩
  intro b hb
  obtain ⟨b', hb', hsame⟩ := exists_mem_of_forall₂ hpaired b hb
  refine ⟨b', ?_, hsame.steps⟩
  rw [findBranch?_eq_some_iff hdistinct]
  exact ⟨hperm.subset hb', hsame.condition.symm⟩

end Pairing

section Equivalence

variable {left middle right : Flow}

theorem Flow.same_refl {flow : Flow} (hwell : WellFormed flow) : same flow flow = true := by
  induction flow using Flow.induction with
  | nil => rfl
  | interaction message rest ih =>
    simp [same, Step.same, ih hwell.2]
  | loop condition body rest ihbody ih =>
    simp [same, Step.same, ihbody hwell.1.2, ih hwell.2]
  | fork branches rest ihbranches ih =>
    obtain ⟨⟨-, hdistinct, hbranches⟩, hrest⟩ := hwell
    rw [wellFormedBranches_iff] at hbranches
    have hfork : Step.same (.fork branches) (.fork branches) = true := by
      apply Step.same_fork_of_pairing hdistinct _ (.refl branches)
      rw [List.forall₂_same]
      exact fun b hb => ⟨rfl, ihbranches b hb (hbranches b hb).2⟩
    simp [same, hfork, ih hrest]

theorem Flow.same_symm (hwell : WellFormed left) (h : same left right = true) :
    same right left = true := by
  induction h using Flow.same_induction with
  | nil => rfl
  | interaction message rest rest' hrest h ih => simp [same, Step.same, ih hwell.2]
  | loop condition body body' rest rest' hbody hrest h ihbody ih =>
    simp [same, Step.same, ihbody hwell.1.2, ih hwell.2]
  | fork branches branches' rest rest' hrest h hlength ihbranches ih =>
    obtain ⟨⟨-, hdistinct, hbranches⟩, hwellRest⟩ := hwell
    rw [wellFormedBranches_iff] at hbranches
    have hpairs : ∀ b ∈ branches, ∃ b', findBranch? b.condition branches' = some b' ∧
        flip Branch.Same b b' := by
      intro b hb
      obtain ⟨b', hfind, -, hb'⟩ := ihbranches b hb
      exact ⟨b', hfind, condition_of_findBranch? hfind, hb' (hbranches b hb).2⟩
    obtain ⟨paired, hperm, hpaired⟩ := exists_perm_forall₂ hdistinct hlength hpairs
    obtain ⟨back, hback, hperm'⟩ := List.perm_comp_forall₂ hperm.symm hpaired.flip
    have hconditions : (branches'.map (·.condition)).Nodup := by
      rw [map_condition_eq hback]
      exact (hperm'.map (·.condition)).nodup_iff.mpr hdistinct
    simp [same, Step.same_fork_of_pairing hconditions hback hperm', ih hwellRest]

theorem Flow.same_trans (h : same left middle = true) (h' : same middle right = true) :
    same left right = true := by
  induction h using Flow.same_induction generalizing right with
  | nil => exact h'
  | interaction message rest rest' hrest h ih =>
    obtain ⟨step, last, rfl, hstep, hlast⟩ := same_cons_left.mp h'
    rw [same, hstep, ih hlast]
    rfl
  | loop condition body body' rest rest' hbody hrest h ihbody ih =>
    obtain ⟨step, last, rfl, hstep, hlast⟩ := same_cons_left.mp h'
    obtain ⟨body'', rfl, hbody''⟩ := Step.same_loop_left.mp hstep
    simp [same, Step.same, ihbody hbody'', ih hlast]
  | fork branches branches' rest rest' hrest h hlength ihbranches ih =>
    obtain ⟨step, last, rfl, hstep, hlast⟩ := same_cons_left.mp h'
    obtain ⟨branches'', rfl, hlength', hbranches'⟩ := Step.same_fork_left.mp hstep
    have hfork : Step.same (.fork branches) (.fork branches'') = true := by
      apply Step.same_fork_left.mpr
      refine ⟨branches'', rfl, hlength.trans hlength', ?_⟩
      intro b hb
      obtain ⟨b', hfind, -, ihb⟩ := ihbranches b hb
      obtain ⟨b'', hfind', hsame⟩ := hbranches' b' (mem_of_findBranch? hfind)
      rw [condition_of_findBranch? hfind] at hfind'
      exact ⟨b'', hfind', ihb hsame⟩
    simp [same, hfork, ih hlast]

end Equivalence

section Reordering

variable {left right : Flow}

theorem Flow.becomes_fork {branches paired : List (Branch Step)}
    (h : List.Forall₂ (fun b b' : Branch Step => b.condition = b'.condition ∧
      Becomes Step.Reorders b.steps b'.steps) branches paired) (before : List (Branch Step)) :
    Becomes Step.Reorders [.fork (before ++ branches)] [.fork (before ++ paired)] := by
  induction h generalizing before with
  | nil => exact .refl
  | @cons b b' branches paired hb _ ih =>
    obtain ⟨condition, steps⟩ := b
    obtain ⟨condition', steps'⟩ := b'
    obtain ⟨rfl, hsteps⟩ := hb
    have hfirst : Becomes Step.Reorders [.fork (before ++ ⟨condition, steps⟩ :: branches)]
        [.fork (before ++ ⟨condition, steps'⟩ :: branches)] :=
      Relation.ReflTransGen.lift
        (fun steps => [Step.fork (before ++ ⟨condition, steps⟩ :: branches)])
        (fun _ _ h => .fork before condition h branches []) _ _ hsteps
    have hothers := ih (before ++ [⟨condition, steps'⟩])
    simp only [List.append_assoc, List.singleton_append] at hothers
    exact hfirst.trans hothers

theorem Flow.becomes_of_same (hwell : WellFormed left) (h : same left right = true) :
    Becomes Step.Reorders left right := by
  induction h using Flow.same_induction with
  | nil => exact .refl
  | interaction message rest rest' hrest h ih =>
    have hfirst : Becomes Step.Reorders [.interaction message] [.interaction message] := .refl
    exact hfirst.append (ih hwell.2)
  | loop condition body body' rest rest' hbody hrest h ihbody ih =>
    have hloop : Becomes Step.Reorders [.loop condition body] [.loop condition body'] :=
      Relation.ReflTransGen.lift (fun body => [Step.loop condition body])
        (fun _ _ h => .loop condition h []) _ _ (ihbody hwell.1.2)
    exact hloop.append (ih hwell.2)
  | fork branches branches' rest rest' hrest h hlength ihbranches ih =>
    obtain ⟨⟨-, hdistinct, hbranches⟩, hwellRest⟩ := hwell
    rw [wellFormedBranches_iff] at hbranches
    have hpairs : ∀ b ∈ branches, ∃ b', findBranch? b.condition branches' = some b' ∧
        (b.condition = b'.condition ∧ Becomes Step.Reorders b.steps b'.steps) := by
      intro b hb
      obtain ⟨b', hfind, -, hb'⟩ := ihbranches b hb
      exact ⟨b', hfind, (condition_of_findBranch? hfind).symm, hb' (hbranches b hb).2⟩
    obtain ⟨paired, hperm, hpaired⟩ := exists_perm_forall₂ hdistinct hlength hpairs
    have hinside := becomes_fork hpaired []
    have hplaces : Replaces Step.Reorders [.fork paired] [.fork branches'] :=
      .here (Step.Reorders.branches hperm) []
    exact Becomes.append (hinside.tail hplaces) (ih hwellRest)

theorem Flow.same_of_replaces (hwell : WellFormed left) (h : Replaces Step.Reorders left right) :
    same left right = true := by
  induction h with
  | here h rest =>
    cases h with
    | branches hperm =>
      obtain ⟨⟨-, hdistinct, hbranches⟩, hrest⟩ := hwell
      rw [wellFormedBranches_iff] at hbranches
      have hpaired := List.forall₂_same.mpr fun b hb =>
        Branch.Same.mk rfl (same_refl (hbranches b hb).2)
      simp [same, Step.same_fork_of_pairing hdistinct hpaired hperm, same_refl hrest]
  | later step h ih =>
    have hstep : same [step] [step] = true := same_refl ⟨hwell.1, trivial⟩
    simp only [same, Bool.and_true] at hstep
    simp [same, hstep, ih hwell.2]
  | loop condition h rest ih =>
    simp [same, Step.same, ih hwell.1.2, same_refl hwell.2]
  | @fork before condition steps steps' h after rest ih =>
    obtain ⟨⟨-, hdistinct, hbranches⟩, hrest⟩ := hwell
    rw [wellFormedBranches_iff, List.forall_mem_append, List.forall_mem_cons] at hbranches
    obtain ⟨hbefore, ⟨-, hsteps⟩, hafter⟩ := hbranches
    have hunchanged (branches : List (Branch Step))
        (hbranches : ∀ b ∈ branches, b.steps ≠ [] ∧ WellFormed b.steps) :
        List.Forall₂ Branch.Same branches branches :=
      List.forall₂_same.mpr fun b hb => ⟨rfl, same_refl (hbranches b hb).2⟩
    have hpaired : List.Forall₂ Branch.Same (before ++ ⟨condition, steps⟩ :: after)
        (before ++ ⟨condition, steps'⟩ :: after) :=
      List.rel_append (hunchanged before hbefore) (.cons ⟨rfl, ih hsteps⟩ (hunchanged after hafter))
    simp [same, Step.same_fork_of_pairing hdistinct hpaired (.refl _), same_refl hrest]

theorem Flow.ne_nil_of_same (h : same left right = true) (hne : left ≠ []) : right ≠ [] := by
  have hlength := length_eq_of_same h
  rw [← List.length_pos_iff] at hne ⊢
  omega

theorem Flow.wellFormed_of_replaces (h : Replaces Step.Reorders left right)
    (hwell : WellFormed left) : WellFormed right := by
  induction h with
  | here h rest =>
    cases h with
    | branches hperm =>
      have hdistinct := (hperm.map (·.condition)).nodup_iff.mp hwell.1.2.1
      exact ⟨hwell.1.fork_perm (hperm.map _) hdistinct, hwell.2⟩
  | later step h ih => exact ⟨hwell.1, ih hwell.2⟩
  | loop condition h rest ih =>
    obtain ⟨⟨hne, hbody⟩, hrest⟩ := hwell
    exact ⟨⟨ne_nil_of_same (same_of_replaces hbody h) hne, ih hbody⟩, hrest⟩
  | fork before condition h after rest ih =>
    obtain ⟨⟨-, hdistinct, hbranches⟩, hrest⟩ := hwell
    rw [wellFormedBranches_iff, List.forall_mem_append, List.forall_mem_cons] at hbranches
    obtain ⟨hbefore, ⟨hne, hsteps⟩, hafter⟩ := hbranches
    refine ⟨⟨by simp, by simpa using hdistinct, ?_⟩, hrest⟩
    rw [wellFormedBranches_iff, List.forall_mem_append, List.forall_mem_cons]
    exact ⟨hbefore, ⟨ne_nil_of_same (same_of_replaces hsteps h) hne, ih hsteps⟩, hafter⟩

theorem Flow.same_of_becomes (hwell : WellFormed left) (h : Becomes Step.Reorders left right) :
    same left right = true ∧ WellFormed right := by
  induction h with
  | refl => exact ⟨same_refl hwell, hwell⟩
  | tail _ h ih =>
    exact ⟨same_trans ih.1 (same_of_replaces ih.2 h), wellFormed_of_replaces h ih.2⟩

end Reordering

/-- Flows are equal exactly if one is the other with branches in other places. So equality is an
equivalence, and equal flows have equally many steps. -/
theorem Flow.same_iff_reordered :
    (∀ left right : Flow, WellFormed left →
      (same left right = true ↔ Becomes Step.Reorders left right)) ∧
    Equivalence (fun left right : { flow : Flow // WellFormed flow } =>
      same left.1 right.1 = true) ∧
    ∀ left right : Flow, left.length ≠ right.length → same left right = false := by
  refine ⟨?_, ?_, ?_⟩
  · intro left right hwell
    exact ⟨becomes_of_same hwell, fun h => (same_of_becomes hwell h).1⟩
  · constructor
    · exact fun flow => same_refl flow.2
    · exact fun {left _} h => same_symm left.2 h
    · exact fun h h' => same_trans h h'
  · intro left right hlength
    rw [Bool.eq_false_iff]
    exact fun h => hlength (length_eq_of_same h)

/-- Branches in other places in a fork, and in the fork inside one of them. -/
theorem Flow.reordered_decisionFlow :
    let left := decisionFlow
      [acceptBranch, ⟨"escalate", decisionFlow [rejectBranch, repeatBranch]⟩]
    let right := decisionFlow
      [⟨"escalate", decisionFlow [repeatBranch, rejectBranch]⟩, acceptBranch]
    WellFormed left ∧ same left right = true ∧ Becomes Step.Reorders left right ∧
      same right left = true := by
  intro left right
  have hleft : WellFormed left := by decide
  have hright : WellFormed right := by decide
  have hsame : same left right = true := by decide
  have hequiv := same_iff_reordered.2.1
  exact ⟨hleft, hsame, (same_iff_reordered.1 left right hleft).mp hsame,
    hequiv.symm (x := ⟨left, hleft⟩) (y := ⟨right, hright⟩) hsame⟩

end UseCaseFlow
