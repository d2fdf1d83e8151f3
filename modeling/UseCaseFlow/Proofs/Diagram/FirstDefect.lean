import UseCaseFlow.Proofs.Diagram.BlockError

/-!
# The first defect of step lines

Which line is the first that no step can be read from, and what is wrong with it. The reader fails
exactly on lines with such a defect, and reports the defect for its line.
-/

namespace UseCaseFlow

/-- A block in which the sections before `s` are read. -/
structure ReadUpTo (entities : List Entity) (budget : Nat) (before : List Segment) (s : Segment)
    (others : List Segment) (closer : String) : Prop where
  block : BlockSegments (before ++ s :: others)
  close : Keyword.ofLine? closer = some .close
  readable : ∀ r ∈ before, r.Readable entities budget
  distinct : (before.map (·.condition)).Nodup

/-- The line behind `before` has the first defect: what stands before it is read, and `after` only
matters for where the blocks end. -/
inductive FirstDefect (entities : List Entity) (limit : Nat) :
    (budget : Nat) → (before : List String) → (line : String) → (after : List String) →
      Defect → Prop
  | message {budget : Nat} {line : String} {after : List String} {defect : Defect}
      (hplain : Keyword.ofLine? line = none) (h : MessageDefect entities line defect) :
      FirstDefect entities limit budget [] line after defect
  | unexpected {budget : Nat} {line : String} {after : List String} {keyword : Keyword}
      (hline : Keyword.ofLine? line = some keyword) (h : keyword.opensBlock = false) :
      FirstDefect entities limit budget [] line after (.unexpectedKeyword keyword)
  | tooDeep {line : String} {after : List String} {keyword : Keyword}
      (hline : Keyword.ofLine? line = some keyword) (h : keyword.opensBlock = true) :
      FirstDefect entities limit 0 [] line after (.nestingTooDeep limit)
  | unterminated {budget : Nat} {line : String} {after : List String} {keyword : Keyword}
      {depth : Nat} (hline : Keyword.ofLine? line = some keyword) (h : keyword.opensBlock = true)
      (hopen : levelAfter 0 after = some depth) :
      FirstDefect entities limit (budget + 1) [] line after (.unterminatedBlock keyword)
  | duplicate {budget : Nat} {before others : List Segment} {s : Segment} {closer : String}
      {rest : List String} (hread : ReadUpTo entities budget before s others closer)
      (h : s.condition ∈ before.map (·.condition)) :
      FirstDefect entities limit (budget + 1) (segmentLines before) s.opener
        (s.body ++ (segmentLines others ++ closer :: rest)) (.duplicateBranch s.condition)
  | empty {budget : Nat} {before others : List Segment} {s : Segment} {closer : String}
      {rest : List String} (hread : ReadUpTo entities budget before s others closer)
      (hfresh : s.condition ∉ before.map (·.condition)) (h : s.body = []) :
      FirstDefect entities limit (budget + 1) (segmentLines before) s.opener
        (segmentLines others ++ closer :: rest) (.emptyBlock s.keyword)
  | inside {budget : Nat} {before others : List Segment} {s : Segment} {closer : String}
      {rest front back : List String} {line : String} {defect : Defect}
      (hread : ReadUpTo entities budget before s others closer)
      (hfresh : s.condition ∉ before.map (·.condition)) (hbody : s.body = front ++ line :: back)
      (h : FirstDefect entities limit budget front line back defect) :
      FirstDefect entities limit (budget + 1) (segmentLines before ++ s.opener :: front) line
        (back ++ (segmentLines others ++ closer :: rest)) defect
  | later {budget : Nat} {first before : List String} {line : String} {after : List String}
      {step : Step} {defect : Defect} (hstep : StepLines entities budget first step)
      (h : FirstDefect entities limit budget before line after defect) :
      FirstDefect entities limit budget (first ++ before) line after defect

section Blocks

variable {inner : LinesReader} {entities : List Entity} {limit budget : Nat}

/-- The error is the first defect of the lines, which follow `start` others. -/
def BlamesFirst (entities : List Entity) (limit budget start : Nat) (lines : List String)
    (e : ParseError) : Prop :=
  ∃ before line after defect, lines = before ++ line :: after ∧
    e = .onLine (start + before.length + 1) defect ∧
    FirstDefect entities limit budget before line after defect

def LinesReader.Blames (inner : LinesReader) (entities : List Entity) (limit budget : Nat) : Prop :=
  ∀ start lines e, inner start lines = .error e → BlamesFirst entities limit budget start lines e

def BlockReader.Blames (block : BlockReader) (entities : List Entity) (limit budget : Nat) : Prop :=
  ∀ keyword start line rest e, Keyword.ofLine? line = some keyword →
    block keyword start (line :: rest) = .error e →
    BlamesFirst entities limit budget start (line :: rest) e

theorem refuseBlock_blames : BlockReader.Blames (refuseBlock limit) entities limit 0 := by
  intro keyword start line rest e hline h
  rw [refuseBlock] at h
  by_cases hopens : keyword.opensBlock = true
  · rw [if_pos hopens] at h
    obtain rfl := Except.error.inj h
    exact ⟨[], line, rest, _, rfl, rfl, .tooDeep hline hopens⟩
  · rw [if_neg hopens] at h
    obtain rfl := Except.error.inj h
    exact ⟨[], line, rest, _, rfl, rfl, .unexpected hline (Bool.eq_false_iff.mpr hopens)⟩

theorem blamesFirst_of_sectionFails (hinner : inner.Blames entities limit budget)
    {before others : List Segment} {s : Segment} {closer : String}
    (hread : ReadUpTo entities budget before s others closer) {start : Nat} {e : ParseError}
    (h : SectionFails inner (start + (segmentLines before).length) (before.map (·.condition)) s e)
    (tail : List String) : BlamesFirst entities limit (budget + 1) start
      (segmentLines (before ++ s :: others) ++ closer :: tail) e := by
  rcases h with ⟨hmem, rfl⟩ | ⟨hfresh, h | ⟨hbody, rfl⟩⟩
  · refine ⟨_, _, s.body ++ (segmentLines others ++ closer :: tail), _, ?_, rfl,
      .duplicate hread hmem⟩
    simp
  · obtain ⟨front, line, back, defect, hbody, rfl, hdefect⟩ := hinner _ _ _ h
    refine ⟨_, _, back ++ (segmentLines others ++ closer :: tail), _, ?_, ?_,
      .inside hread hfresh hbody hdefect⟩
    · simp [hbody]
    · simp only [List.length_append, List.length_cons, ParseError.onLine.injEq, and_true]
      omega
  · refine ⟨_, _, segmentLines others ++ closer :: tail, _, ?_, rfl, .empty hread hfresh hbody⟩
    simp [hbody]

theorem parseBlock_blames (hfollows : inner.Follows entities budget)
    (hinner : inner.Blames entities limit budget) :
    BlockReader.Blames (parseBlock inner) entities limit (budget + 1) := by
  intro keyword start line rest e hline h
  cases hopens : keyword.opensBlock with
  | false =>
    have herror : parseBlock inner keyword start (line :: rest) =
        .error (.onLine (start + 1) (.unexpectedKeyword keyword)) := by
      cases keyword with
      | alt | loop => contradiction
      | actor | participant | otherwise | close => rfl
    obtain rfl := Except.error.inj (h.symm.trans herror)
    exact ⟨[], line, rest, _, rfl, rfl, .unexpected hline hopens⟩
  | true =>
    cases hextent : blockExtent? (line :: rest) with
    | none =>
      obtain ⟨depth, hopen⟩ := scanBlock_eq_none_iff.mp hextent
      have herror := parseBlock_eq_error_of_open inner hline hopens hopen start
      obtain rfl := Except.error.inj (h.symm.trans herror)
      exact ⟨[], line, rest, _, rfl, rfl, .unterminated hline hopens hopen⟩
    | some extent =>
      obtain ⟨s, others, closer, tail, hlines, rfl, hblock, hclose⟩ :=
        exists_blockSegments hline hopens hextent
      rw [hlines, parseBlock_segments_eq_error_iff hblock hclose,
        parseBranches_sectionsOf_eq_error_iff hfollows] at h
      obtain ⟨before, s', others', hsegments, hreadable, hdistinct, -, hfails⟩ := h
      rw [hlines, hsegments]
      rw [hsegments] at hblock
      rw [List.append_nil] at hfails
      exact blamesFirst_of_sectionFails hinner ⟨hblock, hclose, hreadable, hdistinct⟩ hfails tail

theorem BlamesFirst.later {first rest : List String} {step : Step} {start : Nat} {e : ParseError}
    (hstep : StepLines entities budget first step)
    (h : BlamesFirst entities limit budget (start + first.length) rest e) :
    BlamesFirst entities limit budget start (first ++ rest) e := by
  obtain ⟨before, line, after, defect, rfl, rfl, hdefect⟩ := h
  refine ⟨_, line, after, defect, by simp, ?_, .later hstep hdefect⟩
  rw [List.length_append, Nat.add_assoc start]

theorem BlockReader.Blames.readStep {block : BlockReader}
    (hblock : block.Blames entities limit budget) {start : Nat} {line : String}
    {rest : List String} {e : ParseError}
    (h : readStep (IdIndex.ofEntities entities) block start line rest = .error e) :
    BlamesFirst entities limit budget start (line :: rest) e := by
  rw [UseCaseFlow.readStep] at h
  cases hline : Keyword.ofLine? line with
  | none =>
    simp only [hline, bind_eq_error_iff, pure_ne_error, and_false, exists_false, or_false] at h
    obtain ⟨defect, rfl, hdefect⟩ := parseInteraction_eq_error_iff.mp h
    exact ⟨[], line, rest, defect, rfl, rfl, .message hline hdefect⟩
  | some keyword =>
    simp only [hline, bind_eq_error_iff, pure_ne_error, and_false, exists_false, or_false] at h
    exact hblock keyword start line rest e hline h

theorem parseLines_blames {block : BlockReader} (hfollows : block.Follows entities budget)
    (hblock : block.Blames entities limit budget) :
    LinesReader.Blames (parseLines (IdIndex.ofEntities entities) block 0) entities limit
      budget := by
  intro start lines
  -- As for the lines that are read, the induction is on the number of lines.
  induction hsize : lines.length using Nat.strongRecOn generalizing start lines with
  | ind size ih =>
    intro e h
    cases lines with
    | nil => contradiction
    | cons line rest =>
      simp only [hfollows.parseLines_cons, bind_eq_error_iff, Prod.exists, pure_ne_error,
        and_false, exists_false, or_false] at h
      rcases h with h | ⟨step, next, hread, h⟩
      · exact hblock.readStep h
      · have hlt := hfollows.length_drop_lt hread
        obtain ⟨length, rfl, hlength, hstep⟩ := hfollows.readStep_eq_ok_iff.mp hread
        rw [Nat.add_sub_cancel_left] at hlt h
        rw [← List.take_append_drop length (line :: rest)]
        refine .later hstep ?_
        rw [List.length_take_of_le hlength]
        exact ih _ (hsize ▸ hlt) _ _ rfl _ h

def blockReader (index : IdIndex) (limit : Nat) : (budget : Nat) → BlockReader
  | 0 => refuseBlock limit
  | budget + 1 => parseBlock fun first inside => parseSteps index limit budget first inside

theorem parseSteps_eq_parseLines (index : IdIndex) (limit budget start : Nat)
    (lines : List String) : parseSteps index limit budget start lines =
      parseLines index (blockReader index limit budget) 0 start lines := by
  cases budget <;> rfl

theorem blockReader_follows (entities : List Entity) (limit budget : Nat) :
    BlockReader.Follows (blockReader (IdIndex.ofEntities entities) limit budget) entities
      budget := by
  cases budget with
  | zero => exact refuseBlock_follows limit
  | succ budget => exact parseBlock_follows (parseSteps_follows entities limit budget)

/-- Within every budget the reader only fails with the first defect. -/
theorem parseSteps_blames (entities : List Entity) (limit budget : Nat) :
    LinesReader.Blames (parseSteps (IdIndex.ofEntities entities) limit budget) entities limit
      budget := by
  induction budget with
  | zero => exact parseLines_blames (refuseBlock_follows limit) refuseBlock_blames
  | succ budget ih =>
    exact parseLines_blames (parseBlock_follows (parseSteps_follows entities limit budget))
      (parseBlock_blames (parseSteps_follows entities limit budget) ih)

end Blocks

section Reported

variable {entities : List Entity} {limit budget : Nat}

theorem parseLines_eq_error_of_block {index : IdIndex} {block : BlockReader} {line : String}
    {rest : List String} {keyword : Keyword} {start : Nat} {e : ParseError}
    (hline : Keyword.ofLine? line = some keyword)
    (h : block keyword start (line :: rest) = .error e) :
    parseLines index block 0 start (line :: rest) = .error e := by
  simp only [parseLines, hline, h]
  rfl

theorem parseLines_eq_error_of_later {block : BlockReader}
    (hfollows : block.Follows entities budget) {first rest : List String} {step : Step}
    (hstep : StepLines entities budget first step)
    {start : Nat} {e : ParseError}
    (h : parseLines (IdIndex.ofEntities entities) block 0 (start + first.length) rest = .error e) :
    parseLines (IdIndex.ofEntities entities) block 0 start (first ++ rest) = .error e := by
  obtain ⟨line, inside, rfl, -⟩ := hstep.head
  have hdrop : (line :: (inside ++ rest)).drop (line :: inside).length = rest := by simp
  rw [List.cons_append, hfollows.parseLines_cons, hfollows.readStep_of_stepLines hstep]
  simp only [ok_bind, Nat.add_sub_cancel_left, hdrop]
  exact bind_eq_error_iff.mpr (Or.inl h)

theorem parseSteps_eq_error_of_sectionFails {before others : List Segment} {s : Segment}
    {closer : String} (hread : ReadUpTo entities budget before s others closer) {start : Nat}
    {e : ParseError} (h : SectionFails (parseSteps (IdIndex.ofEntities entities) limit budget)
      (start + (segmentLines before).length) (before.map (·.condition)) s e) (tail : List String) :
    parseSteps (IdIndex.ofEntities entities) limit (budget + 1) start
      (segmentLines (before ++ s :: others) ++ closer :: tail) = .error e := by
  have hfollows := parseSteps_follows entities limit budget
  have hblock := hread.block
  have hsections : parseBranches (parseSteps (IdIndex.ofEntities entities) limit budget) []
      (sectionsOf start (before ++ s :: others)) = .error e := by
    rw [parseBranches_sectionsOf_eq_error_iff hfollows]
    refine ⟨before, s, others, rfl, hread.readable, hread.distinct, by simp, ?_⟩
    rwa [List.append_nil]
  generalize before ++ s :: others = segments at hblock hsections
  cases segments with
  | nil => nomatch hblock
  | cons first rest =>
    have hopener : Keyword.ofLine? first.opener = some first.keyword := by
      cases hblock with
      | loop hkeyword h => exact h.opener
      | fork hkeyword h hothers => exact h.opener
    rw [parseSteps_eq_parseLines]
    exact parseLines_eq_error_of_block hopener
      ((parseBlock_segments_eq_error_iff hblock hread.close).mpr hsections)

/-- Within every budget the reader reports the first defect. -/
theorem FirstDefect.parseSteps_eq_error {before : List String} {line : String}
    {after : List String} {defect : Defect}
    (h : FirstDefect entities limit budget before line after defect) (start : Nat) :
    parseSteps (IdIndex.ofEntities entities) limit budget start (before ++ line :: after) =
      .error (.onLine (start + before.length + 1) defect) := by
  induction h generalizing start with
  | message hplain h =>
    rw [parseSteps_eq_parseLines, List.nil_append, parseLines]
    simp only [hplain]
    exact bind_eq_error_iff.mpr (Or.inl (parseInteraction_eq_error_iff.mpr ⟨_, rfl, h⟩))
  | @unexpected budget line after keyword hline h =>
    rw [parseSteps_eq_parseLines]
    refine parseLines_eq_error_of_block hline ?_
    cases budget with
    | zero => simp [blockReader, refuseBlock, h]; rfl
    | succ budget =>
      cases keyword with
      | alt | loop => contradiction
      | actor | participant | otherwise | close => rfl
  | tooDeep hline h =>
    rw [parseSteps_eq_parseLines]
    refine parseLines_eq_error_of_block hline ?_
    simp [blockReader, refuseBlock, h]
    rfl
  | unterminated hline h hopen =>
    rw [parseSteps_eq_parseLines]
    exact parseLines_eq_error_of_block hline (parseBlock_eq_error_of_open _ hline h hopen start)
  | @duplicate budget before others s closer rest hread h =>
    have hfails : SectionFails (parseSteps (IdIndex.ofEntities entities) limit budget)
        (start + (segmentLines before).length) (before.map (·.condition)) s
        (.onLine (start + (segmentLines before).length + 1) (.duplicateBranch s.condition)) :=
      Or.inl ⟨h, rfl⟩
    simpa using parseSteps_eq_error_of_sectionFails hread hfails rest
  | @empty budget before others s closer rest hread hfresh h =>
    have hfails : SectionFails (parseSteps (IdIndex.ofEntities entities) limit budget)
        (start + (segmentLines before).length) (before.map (·.condition)) s
        (.onLine (start + (segmentLines before).length + 1) (.emptyBlock s.keyword)) :=
      Or.inr ⟨hfresh, Or.inr ⟨h, rfl⟩⟩
    simpa [h] using parseSteps_eq_error_of_sectionFails hread hfails rest
  | @inside budget before others s closer rest front back line defect hread hfresh hbody h ih =>
    have hinside := ih (start + (segmentLines before).length + 1)
    rw [← hbody] at hinside
    have herror := parseSteps_eq_error_of_sectionFails hread (Or.inr ⟨hfresh, Or.inl hinside⟩) rest
    have hnumber : start + (segmentLines before).length + 1 + front.length + 1 =
        start + (segmentLines before ++ s.opener :: front).length + 1 := by
      simp only [List.length_append, List.length_cons]
      omega
    rw [hnumber] at herror
    simpa [hbody] using herror
  | later hstep h ih =>
    rw [parseSteps_eq_parseLines, List.append_assoc, List.length_append, ← Nat.add_assoc]
    refine parseLines_eq_error_of_later (blockReader_follows entities limit _) hstep ?_
    rw [← parseSteps_eq_parseLines]
    exact ih _

end Reported

/-- A sequence of lines fails exactly if it is empty or has a first defect, and the error says what
the defect is and where. -/
theorem parseSequence_eq_error_iff {entities : List Entity} {lines : List String} {limit : Nat}
    {e : ParseError} : parseSequence entities lines limit = .error e ↔
      lines = [] ∧ e = .emptySequence ∨ BlamesFirst entities limit limit 0 lines e := by
  rw [parseSequence, bind_eq_error_iff]
  constructor
  · rintro (h | ⟨flow, hflow, h⟩)
    · exact Or.inr (parseSteps_blames _ _ _ _ _ _ h)
    · cases flow with
      | nil =>
        rw [parseSteps_follows, flowLines_nil_right] at hflow
        exact Or.inl ⟨hflow, (Except.error.inj h).symm⟩
      | cons step flow => contradiction
  · rintro (⟨rfl, rfl⟩ | ⟨before, line, after, defect, rfl, rfl, h⟩)
    · exact Or.inr ⟨[], (parseSteps_follows _ _ _ _ _ _).mpr .nil, rfl⟩
    · exact Or.inl (h.parseSteps_eq_error 0)

end UseCaseFlow
