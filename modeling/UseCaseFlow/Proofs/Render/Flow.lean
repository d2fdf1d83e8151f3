import UseCaseFlow.Proofs.Diagram.Listing
import UseCaseFlow.Proofs.Render.Message

/-!
# Flows read back

The lines of a flow derive the flow, as long as its message lines are read back.
-/

namespace UseCaseFlow

open Text

variable {entities : List Entity}

/-- The lines of a flow as the reader sees them. -/
def Flow.trimmedLines (entities : List Entity) (flow : Flow) : List String :=
  (Flow.lines entities flow).map trimmed

def Flow.trimmedBranchLines (entities : List Entity) (keyword : Keyword)
    (branches : List (Branch Step)) : List String :=
  (Flow.branchLines entities keyword branches).map trimmed

section Equations

variable (rest : Flow)

theorem Flow.trimmedLines_interaction (message : Interaction) :
    Flow.trimmedLines entities (.interaction message :: rest) =
      trimmed (messageLine (message.message entities)) :: Flow.trimmedLines entities rest := rfl

theorem Flow.trimmedLines_loop (condition : String) (body : Flow) :
    Flow.trimmedLines entities (.loop condition body :: rest) =
      trimmed (Keyword.loop.line condition) :: (Flow.trimmedLines entities body ++
        trimmed Keyword.close.text :: Flow.trimmedLines entities rest) := by
  simp [trimmedLines, Flow.lines, Step.lines]

theorem Flow.trimmedLines_fork (branches : List (Branch Step)) :
    Flow.trimmedLines entities (.fork branches :: rest) =
      Flow.trimmedBranchLines entities .alt branches ++
        trimmed Keyword.close.text :: Flow.trimmedLines entities rest := by
  simp [trimmedLines, trimmedBranchLines, Flow.lines, Step.lines]

theorem Flow.trimmedBranchLines_cons (keyword : Keyword) (b : Branch Step)
    (branches : List (Branch Step)) : Flow.trimmedBranchLines entities keyword (b :: branches) =
      trimmed (keyword.line b.condition) :: (Flow.trimmedLines entities b.steps ++
        Flow.trimmedBranchLines entities .otherwise branches) := by
  simp [trimmedBranchLines, Flow.branchLines, trimmedLines]

end Equations

/-- The message line of the interaction is read as the interaction. -/
structure ReadsBack (entities : List Entity) (i : Interaction) : Prop where
  plain : Keyword.ofLine? (messageLine (i.message entities)) = none
  reads : ReadsInteraction entities (trimmed (messageLine (i.message entities))) i

theorem ofLine?_close : Keyword.ofLine? (trimmed Keyword.close.text) = some .close := by decide

private theorem branchLines_written {branches : List (Branch Step)} {budget : Nat}
    (hbodies : ∀ b ∈ branches,
      FlowLines entities budget (Flow.trimmedLines entities b.steps) b.steps)
    (hne : ∀ b ∈ branches, b.steps ≠ []) (hconditions : ∀ b ∈ branches, PlainText b.condition)
    (keyword : Keyword) :
    BranchLines entities budget keyword (Flow.trimmedBranchLines entities keyword branches)
      branches := by
  induction branches generalizing keyword with
  | nil => exact .nil
  | cons b branches ih =>
    rw [List.forall_mem_cons] at hbodies hne hconditions
    have hcondition : keyword.restOf (trimmed (keyword.line b.condition)) = b.condition := by
      simp [trimmed_eq_self hconditions.1.trimmed]
    have hothers := ih hbodies.2 hne.2 hconditions.2 .otherwise
    rw [branchLines_cons_right]
    exact ⟨_, _, _, Flow.trimmedBranchLines_cons .., by simp, hcondition.symm, hbodies.1, hne.1,
      hothers⟩

theorem flowLines_trimmedLines {flow : Flow} {budget : Nat} (hwell : Flow.WellFormed flow)
    (hdepth : Flow.depth flow ≤ budget) (hconditions : ∀ c ∈ Flow.conditions flow, PlainText c)
    (hmessages : ∀ m ∈ Flow.interactions flow, ReadsBack entities m) :
    FlowLines entities budget (Flow.trimmedLines entities flow) flow := by
  induction flow using Flow.induction generalizing budget with
  | nil => exact .nil
  | interaction message rest ih =>
    rw [Flow.conditions_interaction] at hconditions
    rw [Flow.interactions_interaction, List.forall_mem_cons] at hmessages
    have hrest := ih hwell.2 (Flow.depth_cons_le.mp hdepth).2 hconditions hmessages.2
    have hline := hmessages.1.plain
    rw [← Keyword.ofLine?_trimmed] at hline
    exact .cons (.interaction hline hmessages.1.reads) hrest
  | loop condition body rest ihbody ih =>
    obtain ⟨⟨hne, hwellBody⟩, hwellRest⟩ := hwell
    obtain ⟨hdepthStep, hdepthRest⟩ := Flow.depth_cons_le.mp hdepth
    rw [Flow.conditions_loop, List.cons_append, List.forall_mem_cons, List.forall_mem_append]
      at hconditions
    rw [Flow.interactions_loop, List.forall_mem_append] at hmessages
    have hrest := ih hwellRest hdepthRest hconditions.2.2 hmessages.2
    cases budget with
    | zero => simp [Step.depth] at hdepthStep
    | succ budget =>
      have hbody := ihbody hwellBody (Nat.le_of_succ_le_succ hdepthStep) hconditions.2.1 hmessages.1
      have hopen : Keyword.ofLine? (trimmed (Keyword.loop.line condition)) = some .loop := by simp
      have hstep := StepLines.loop hopen hbody hne ofLine?_close
      rw [Keyword.restOf_trimmed, Keyword.restOf_line,
        trimmed_eq_self hconditions.1.trimmed] at hstep
      simpa [Flow.trimmedLines_loop] using FlowLines.cons hstep hrest
  | fork branches rest ihbranches ih =>
    obtain ⟨⟨hne, hdistinct, hwellBranches⟩, hwellRest⟩ := hwell
    obtain ⟨hdepthStep, hdepthRest⟩ := Flow.depth_cons_le.mp hdepth
    rw [Flow.forall_conditions_fork] at hconditions
    rw [Flow.forall_interactions_fork] at hmessages
    have hrest := ih hwellRest hdepthRest hconditions.2 hmessages.2
    rw [Flow.wellFormedBranches_iff] at hwellBranches
    cases budget with
    | zero => simp [Step.depth] at hdepthStep
    | succ budget =>
      have hdepthBranches := Flow.branchDepth_le.mp (Nat.le_of_succ_le_succ hdepthStep)
      have hsections : BranchLines entities budget .alt
          (Flow.trimmedBranchLines entities .alt branches) branches := by
        refine branchLines_written (fun b hb => ?_) (fun b hb => (hwellBranches b hb).1)
          (fun b hb => (hconditions.1 b hb).1) .alt
        exact ihbranches b hb (hwellBranches b hb).2 (hdepthBranches b hb)
          (hconditions.1 b hb).2 (hmessages.1 b hb)
      have hstep := StepLines.fork hsections hne hdistinct ofLine?_close
      simpa [Flow.trimmedLines_fork] using FlowLines.cons hstep hrest

private theorem forall_mem_branchLines {P : String → Prop} {branches : List (Branch Step)}
    (hbodies : ∀ b ∈ branches, ∀ line ∈ Flow.lines entities b.steps, P line)
    (hopen : ∀ b ∈ branches, ∀ k : Keyword, k.declaresEntity = false → P (k.line b.condition))
    {keyword : Keyword} (hkeyword : keyword.declaresEntity = false) :
    ∀ line ∈ Flow.branchLines entities keyword branches, P line := by
  induction branches generalizing keyword with
  | nil => simp [Flow.branchLines]
  | cons b branches ih =>
    rw [List.forall_mem_cons] at hbodies hopen
    rw [Flow.branchLines, List.cons_append, List.forall_mem_cons, List.forall_mem_append]
    exact ⟨hopen.1 keyword hkeyword, hbodies.1, ih hbodies.2 hopen.2 rfl⟩

theorem Flow.forall_mem_lines {P : String → Prop} {flow : Flow}
    (hopen : ∀ c ∈ Flow.conditions flow, ∀ k : Keyword, k.declaresEntity = false → P (k.line c))
    (hclose : P Keyword.close.text)
    (hmessage : ∀ m ∈ Flow.interactions flow, P (messageLine (m.message entities))) :
    ∀ line ∈ Flow.lines entities flow, P line := by
  induction flow using Flow.induction with
  | nil => simp [Flow.lines]
  | interaction message rest ih =>
    rw [Flow.conditions_interaction] at hopen
    rw [Flow.interactions_interaction, List.forall_mem_cons] at hmessage
    rw [Flow.lines, Step.lines, List.singleton_append, List.forall_mem_cons]
    exact ⟨hmessage.1, ih hopen hmessage.2⟩
  | loop condition body rest ihbody ih =>
    rw [Flow.conditions_loop, List.cons_append, List.forall_mem_cons, List.forall_mem_append] at hopen
    rw [Flow.interactions_loop, List.forall_mem_append] at hmessage
    rw [Flow.lines, Step.lines, List.forall_mem_append, List.forall_mem_append,
      List.forall_mem_cons, List.forall_mem_singleton]
    exact ⟨⟨⟨hopen.1 .loop rfl, ihbody hopen.2.1 hmessage.1⟩, hclose⟩, ih hopen.2.2 hmessage.2⟩
  | fork branches rest ihbranches ih =>
    rw [Flow.forall_conditions_fork] at hopen
    rw [Flow.forall_interactions_fork] at hmessage
    have hbranches : ∀ line ∈ Flow.branchLines entities .alt branches, P line :=
      forall_mem_branchLines (fun b hb => ihbranches b hb (hopen.1 b hb).2 (hmessage.1 b hb))
        (fun b hb => (hopen.1 b hb).1) rfl
    rw [Flow.lines, Step.lines, List.forall_mem_append, List.forall_mem_append,
      List.forall_mem_singleton]
    exact ⟨⟨hbranches, hclose⟩, ih hopen.2 hmessage.2⟩

private theorem plainLines_trimmedBranchLines {branches : List (Branch Step)}
    {read : Interaction → String}
    (hbodies : ∀ b ∈ branches, plainLines (Flow.trimmedLines entities b.steps) =
      (Flow.interactions b.steps).map read) (keyword : Keyword) :
    plainLines (Flow.trimmedBranchLines entities keyword branches) =
      (branches.flatMap fun b => Flow.interactions b.steps).map read := by
  induction branches generalizing keyword with
  | nil => rfl
  | cons b branches ih =>
    rw [List.forall_mem_cons] at hbodies
    have hopen : Keyword.ofLine? (trimmed (keyword.line b.condition)) = some keyword := by simp
    rw [Flow.trimmedBranchLines_cons, plainLines_cons_keyword hopen, plainLines_append, hbodies.1,
      ih hbodies.2, List.flatMap_cons, List.map_append]

theorem plainLines_trimmedLines {flow : Flow} (h : ∀ m ∈ Flow.interactions flow,
      Keyword.ofLine? (messageLine (m.message entities)) = none) :
    plainLines (Flow.trimmedLines entities flow) =
      (Flow.interactions flow).map fun m => trimmed (messageLine (m.message entities)) := by
  induction flow using Flow.induction with
  | nil => rfl
  | interaction message rest ih =>
    rw [Flow.interactions_interaction, List.forall_mem_cons] at h
    have hline := h.1
    rw [← Keyword.ofLine?_trimmed] at hline
    rw [Flow.trimmedLines_interaction, plainLines_cons_plain hline, ih h.2]
    rfl
  | loop condition body rest ihbody ih =>
    rw [Flow.interactions_loop, List.forall_mem_append] at h
    have hopen : Keyword.ofLine? (trimmed (Keyword.loop.line condition)) = some .loop := by simp
    rw [Flow.trimmedLines_loop, plainLines_cons_keyword hopen, plainLines_append,
      plainLines_cons_keyword ofLine?_close, ihbody h.1, ih h.2, ← List.map_append,
      Flow.interactions_loop]
  | fork branches rest ihbranches ih =>
    rw [Flow.forall_interactions_fork] at h
    have hbodies := plainLines_trimmedBranchLines (fun b hb => ihbranches b hb (h.1 b hb)) .alt
    rw [Flow.trimmedLines_fork, plainLines_append, plainLines_cons_keyword ofLine?_close, hbodies,
      ih h.2, ← List.map_append, Flow.interactions_fork]

theorem readsInteraction_of_trimmedLines {flow : Flow} {budget : Nat}
    (hplain : ∀ m ∈ Flow.interactions flow,
      Keyword.ofLine? (messageLine (m.message entities)) = none)
    (h : FlowLines entities budget (Flow.trimmedLines entities flow) flow) :
    ∀ m ∈ Flow.interactions flow,
      ReadsInteraction entities (trimmed (messageLine (m.message entities))) m := by
  have hread := h.forall₂_plainLines
  rw [plainLines_trimmedLines hplain, List.forall₂_map_left_iff, List.forall₂_same] at hread
  exact hread

end UseCaseFlow
