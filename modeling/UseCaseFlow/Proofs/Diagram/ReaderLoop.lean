import UseCaseFlow.Proofs.Diagram.Concatenation
import UseCaseFlow.Proofs.Diagram.ReaderCalls

/-!
# The loop of the reader

A call reads its lines in rounds, with one step in each. Every round goes on behind the lines of its
step, until a step fails or no line is left. The blocks that the reader comes to are those at which
a round begins.
-/

namespace UseCaseFlow

/-- Where the loop of a call stands: the steps that are read, the index of the line that comes next,
and the lines from there to the end of the range. -/
structure LoopState where
  steps : Flow
  position : Nat
  left : List String

section Loop

variable {entities : List Entity} {limit : Nat} {c : RangeCall}

/-- What a round of the call reads at the index, where the line and `rest` are left. -/
def RangeCall.stepAt (entities : List Entity) (limit : Nat) (c : RangeCall) (position : Nat)
    (line : String) (rest : List String) : Except ParseError (Step × Nat) :=
  readStep (IdIndex.ofEntities entities)
    (blockReader (IdIndex.ofEntities entities) limit c.budget) position line rest

inductive RangeCall.Visits (entities : List Entity) (limit : Nat) (c : RangeCall) : LoopState → Prop
  | first : Visits entities limit c ⟨[], c.start, c.lines⟩
  | next {steps : Flow} {position following : Nat} {line : String} {rest : List String}
      {step : Step} (h : Visits entities limit c ⟨steps, position, line :: rest⟩)
      (hstep : c.stepAt entities limit position line rest = .ok (step, following)) :
      Visits entities limit c
        ⟨steps ++ [step], following, (line :: rest).drop (following - position)⟩

theorem RangeCall.stepAt_eq_ok_iff {position next : Nat} {line : String} {rest : List String}
    {step : Step} : c.stepAt entities limit position line rest = .ok (step, next) ↔
      ∃ length, next = position + length ∧ length ≤ (line :: rest).length ∧
        StepLines entities c.budget ((line :: rest).take length) step :=
  (blockReader_follows entities limit c.budget).readStep_eq_ok_iff

theorem RangeCall.stepAt_advances {position next : Nat} {line : String} {rest : List String}
    {step : Step} (h : c.stepAt entities limit position line rest = .ok (step, next)) :
    position < next ∧ next ≤ position + (line :: rest).length :=
  (blockReader_follows entities limit c.budget).readStep_advances h

/-- The steps that are read are those of the lines up to where the loop stands. -/
theorem RangeCall.Visits.exists_flowLines {s : LoopState} (h : c.Visits entities limit s) :
    ∃ before, c.lines = before ++ s.left ∧ s.position = c.start + before.length ∧
      FlowLines entities c.budget before s.steps := by
  induction h with
  | first => exact ⟨[], rfl, rfl, .nil⟩
  | @next steps position following line rest step h hstep ih =>
    obtain ⟨before, hlines, hposition, hflow⟩ := ih
    obtain ⟨length, rfl, hlength, hread⟩ := stepAt_eq_ok_iff.mp hstep
    refine ⟨before ++ (line :: rest).take length, ?_, ?_, ?_⟩
    · rw [hlines, Nat.add_sub_cancel_left, List.append_assoc, List.take_append_drop]
    · simp only at hposition
      rw [List.length_append, List.length_take_of_le hlength, hposition, Nat.add_assoc]
    · exact hflow.append (flowLines_singleton.mpr hread)

theorem RangeCall.Visits.length_steps_le {s : LoopState} (h : c.Visits entities limit s) :
    c.start + s.steps.length ≤ s.position := by
  induction h with
  | first => exact Nat.le_refl _
  | next h hstep ih =>
    have hadvances := (stepAt_advances hstep).1
    simp only [List.length_append, List.length_singleton] at ih ⊢
    omega

theorem RangeCall.Visits.append_flowLines {steps flow : Flow} {position : Nat}
    {before left : List String} (h : c.Visits entities limit ⟨steps, position, before ++ left⟩)
    (hflow : FlowLines entities c.budget before flow) :
    c.Visits entities limit ⟨steps ++ flow, position + before.length, left⟩ := by
  induction flow generalizing steps position before with
  | nil =>
    rw [flowLines_nil_right] at hflow
    simpa [hflow] using h
  | cons step flow ih =>
    obtain ⟨first, rest, rfl, hstep, hrest⟩ := flowLines_cons_right.mp hflow
    obtain ⟨line, inside, rfl, -⟩ := hstep.head
    have hread : c.stepAt entities limit position line (inside ++ (rest ++ left)) =
        .ok (step, position + (line :: inside).length) :=
      (blockReader_follows entities limit c.budget).readStep_of_stepLines hstep
    have hnext := Visits.next (by simpa using h) hread
    have hdrop : (line :: (inside ++ (rest ++ left))).drop (line :: inside).length = rest ++ left :=
      by simp
    rw [Nat.add_sub_cancel_left, hdrop] at hnext
    have hlast := ih hnext hrest
    rwa [List.append_assoc, List.singleton_append, Nat.add_assoc, ← List.length_append] at hlast

/-- Up to where the loop stands, any reader of blocks that agrees with that of the call before this
index reads the same steps. -/
theorem RangeCall.Visits.parseLines_eq {s : LoopState} (h : c.Visits entities limit s)
    {other : BlockReader} (hagree : ∀ keyword position lines, position < s.position →
      other keyword position lines =
        blockReader (IdIndex.ofEntities entities) limit c.budget keyword position lines) :
    parseLines (IdIndex.ofEntities entities) other 0 c.start c.lines =
      (parseLines (IdIndex.ofEntities entities) other 0 s.position s.left).map (s.steps ++ ·) := by
  induction h with
  | first =>
    cases parseLines (IdIndex.ofEntities entities) other 0 c.start c.lines <;> rfl
  | @next steps position following line rest step h hstep ih =>
    have hlt := (stepAt_advances hstep).1
    have hsame : readStep (IdIndex.ofEntities entities) other position line rest =
        .ok (step, following) := by
      rw [← hstep, stepAt, readStep, readStep]
      cases Keyword.ofLine? line with
      | none => rfl
      | some keyword => simp only [hagree keyword position _ hlt]
    have hadvances (step' : Step) (next : Nat)
        (hnext : readStep (IdIndex.ofEntities entities) other position line rest =
          .ok (step', next)) : position < next := by
      rw [hsame] at hnext
      obtain ⟨-, rfl⟩ := Prod.mk.inj (Except.ok.inj hnext)
      exact hlt
    rw [ih fun keyword earlier lines hearlier =>
      hagree keyword earlier lines (Nat.lt_trans hearlier hlt)]
    simp only [parseLines_cons hadvances, hsame, ok_bind]
    cases parseLines (IdIndex.ofEntities entities) other 0 following
        ((line :: rest).drop (following - position)) with
    | error e => rfl
    | ok flow => exact congrArg Except.ok (List.append_cons steps step flow)

theorem RangeCall.Visits.outcome_eq {s : LoopState} (h : c.Visits entities limit s) :
    c.outcome entities limit = (parseSteps (IdIndex.ofEntities entities) limit c.budget s.position
      s.left).map (s.steps ++ ·) := by
  rw [outcome, parseSteps_eq_parseLines, parseSteps_eq_parseLines]
  exact h.parseLines_eq fun _ _ _ _ => rfl

/-- The loop ends: it has come to the index `stop` and the steps are returned, or a step fails and so
does the call. -/
inductive RangeCall.EndsAt (entities : List Entity) (limit : Nat) (c : RangeCall) (stop : Nat) :
    LoopState → Prop
  | finished {steps : Flow} (h : c.outcome entities limit = .ok steps) :
      EndsAt entities limit c stop ⟨steps, stop, []⟩
  | failed {steps : Flow} {position : Nat} {line : String} {rest : List String} {e : ParseError}
      (hstep : c.stepAt entities limit position line rest = .error e)
      (h : c.outcome entities limit = .error e) :
      EndsAt entities limit c stop ⟨steps, position, line :: rest⟩

theorem parseSteps_eq_error_of_stepAt {position : Nat} {line : String} {rest : List String}
    {e : ParseError} (h : c.stepAt entities limit position line rest = .error e) :
    parseSteps (IdIndex.ofEntities entities) limit c.budget position (line :: rest) = .error e := by
  rw [RangeCall.stepAt] at h
  rw [parseSteps_eq_parseLines, (blockReader_follows entities limit c.budget).parseLines_cons, h]
  rfl

theorem RangeCall.Visits.exists_endsAt {stop : Nat} (hstop : c.start + c.lines.length = stop)
    {s : LoopState} (h : c.Visits entities limit s) :
    ∃ last, c.Visits entities limit last ∧ c.EndsAt entities limit stop last := by
  induction hsize : s.left.length using Nat.strongRecOn generalizing s with
  | ind size ih =>
    obtain ⟨steps, position, left⟩ := s
    cases left with
    | nil =>
      obtain ⟨before, hlines, hposition, -⟩ := h.exists_flowLines
      obtain rfl : position = stop := by
        rw [← hstop, hlines, List.append_nil]
        exact hposition
      have houtcome : c.outcome entities limit = .ok steps := by
        rw [h.outcome_eq, parseSteps_eq_parseLines]
        exact congrArg Except.ok (List.append_nil steps)
      exact ⟨_, h, .finished houtcome⟩
    | cons line rest =>
      cases hstep : c.stepAt entities limit position line rest with
      | error e =>
        refine ⟨_, h, .failed hstep ?_⟩
        rw [h.outcome_eq, parseSteps_eq_error_of_stepAt hstep]
        rfl
      | ok found =>
        obtain ⟨step, following⟩ := found
        have hlt := (blockReader_follows entities limit c.budget).length_drop_lt hstep
        exact ih _ (hsize ▸ hlt) (.next h hstep) rfl

theorem RangeCall.Visits.parseLines_eq_error {steps : Flow} {position : Nat} {line : String}
    {rest : List String} {keyword : Keyword} {other : BlockReader} {e : ParseError}
    (h : c.Visits entities limit ⟨steps, position, line :: rest⟩)
    (hline : Keyword.ofLine? line = some keyword)
    (hagree : ∀ keyword earlier lines, earlier < position → other keyword earlier lines =
      blockReader (IdIndex.ofEntities entities) limit c.budget keyword earlier lines)
    (herror : other keyword position (line :: rest) = .error e) :
    parseLines (IdIndex.ofEntities entities) other 0 c.start c.lines = .error e := by
  rw [h.parseLines_eq hagree, parseLines_eq_error_of_block hline herror]
  rfl

/-- The reader comes to a block exactly where a round begins with its opener. -/
theorem RangeCall.meets_iff_visits {b : BlockCall} : c.Meets entities limit b ↔
    ∃ steps line rest, b.lines = line :: rest ∧ Keyword.ofLine? line = some b.keyword ∧
      c.Visits entities limit ⟨steps, b.start, line :: rest⟩ := by
  constructor
  · intro h
    obtain ⟨before, hholds⟩ := h.exists_holds
    obtain ⟨line, rest, hlines, hline⟩ := hholds.head
    obtain ⟨flow, hflow⟩ := hholds.steps
    have hfirst : c.Visits entities limit ⟨[], c.start, c.lines⟩ := .first
    rw [hholds.lines, hlines] at hfirst
    refine ⟨flow, line, rest, hlines, hline, ?_⟩
    rw [hholds.start]
    exact hfirst.append_flowLines hflow
  · rintro ⟨steps, line, rest, hlines, hline, h⟩ e
    obtain ⟨keyword, position, _⟩ := b
    obtain rfl := hlines
    apply h.parseLines_eq_error hline
    · intro keyword' earlier lines hlt
      apply Function.update_of_ne
      intro heq
      exact Nat.ne_of_lt hlt (BlockCall.mk.inj heq).2.1
    · exact Function.update_self ..

end Loop

end UseCaseFlow
