import UseCaseFlow.Proofs.Diagram.NestingDepth
import UseCaseFlow.Proofs.Diagram.ReaderCalls

/-!
# Ranges inside of blocks are balanced

Inside of a block the reader is only called for lines that close what they open. So every block in
there is found to end, and an `end` that is missing or closes nothing is only found outside of all
blocks.
-/

namespace UseCaseFlow

section Closed

variable {line : String} {rest lines front : List String} {keyword : Keyword}

theorem excess_of_levelAfter {depth : Nat} (h : levelAfter 0 lines = some depth) :
    excess lines = depth := by
  obtain ⟨inner, rfl, hinner⟩ : ∃ inner : List OpenBlock, inner.length = depth ∧ ∀ outer,
      openBlocksFrom 0 ([] ++ outer) lines = some (inner ++ outer) :=
    exists_openBlocksFrom 0 h
  have hblocks := excess_of_openBlocksFrom (hinner [])
  simpa using hblocks.symm

theorem lineCount_close_le (h : levelAfter 0 lines = some 0) (hfront : front <+: lines) :
    lineCount .close front ≤ lineCount .alt front + lineCount .loop front := by
  obtain ⟨back, rfl⟩ := hfront
  rw [levelAfter_append, Option.bind_eq_some_iff] at h
  obtain ⟨depth, hdepth, -⟩ := h
  have hexcess := excess_of_levelAfter hdepth
  rw [excess] at hexcess
  omega

theorem lineCount_close_eq (h : levelAfter 0 lines = some 0) :
    lineCount .close lines = lineCount .alt lines + lineCount .loop lines := by
  have hexcess := excess_of_closed h
  rw [excess] at hexcess
  omega

theorem levelAfter_opener_cons (hline : Keyword.ofLine? line = some keyword)
    (hk : keyword.opensBlock = true) {depth : Nat} (h : levelAfter 0 rest = some depth) :
    levelAfter 0 (line :: rest) = some (depth + 1) := by
  rw [levelAfter_cons, levelStep_opener hline hk, Option.bind_some]
  exact levelAfter_add h 1

theorem exists_blockExtent (h : levelAfter 0 (line :: rest) = some 0)
    (hline : Keyword.ofLine? line = some keyword) (hk : keyword.opensBlock = true) :
    ∃ e, blockExtent? (line :: rest) = some e := by
  cases hextent : blockExtent? (line :: rest) with
  | some e => exact ⟨e, rfl⟩
  | none =>
    obtain ⟨depth, hdepth⟩ : ∃ depth, levelAfter 0 rest = some depth :=
      scanBlock_eq_none_iff.mp hextent
    rw [levelAfter_opener_cons hline hk hdepth] at h
    simp at h

theorem NoSeparator.of_append (h : NoSeparator 0 (front ++ lines))
    (hfront : levelAfter 0 front = some 0) : NoSeparator 0 lines := by
  intro before line after hlines hlevel
  apply h (front ++ before) line after
  · simp [hlines]
  · rw [levelAfter_closed_append hfront, hlevel]

end Closed

section Defects

variable {entities : List Entity} {limit budget : Nat} {before after : List String} {line : String}
  {defect : Defect}

/-- A block does not end, or an `end` closes nothing. -/
def Defect.IsUnbalanced : Defect → Prop
  | .unterminatedBlock _ => True
  | .unexpectedKeyword keyword => keyword = .close
  | _ => False

theorem MessageDefect.not_isUnbalanced (h : MessageDefect entities line defect) :
    ¬ defect.IsUnbalanced := by
  cases h with
  | malformed h => exact id
  | source hmessage h => cases h <;> exact id
  | target hmessage hsource h => cases h <;> exact id

/-- Lines that close what they open have another first defect. -/
theorem FirstDefect.not_isUnbalanced
    (h : FirstDefect entities limit budget before line after defect)
    (hclosed : levelAfter 0 (before ++ line :: after) = some 0) : ¬ defect.IsUnbalanced := by
  induction h with
  | message hplain h => exact h.not_isUnbalanced
  | unexpected hline h =>
    rintro rfl
    rw [List.nil_append, levelAfter_cons, levelStep_close_zero hline] at hclosed
    contradiction
  | tooDeep hline h => exact id
  | unterminated hline h hopen =>
    rw [List.nil_append, levelAfter_opener_cons hline h hopen] at hclosed
    simp at hclosed
  | duplicate hread h => exact id
  | empty hread hfresh h => exact id
  | inside hread hfresh hbody h ih =>
    apply ih
    rw [← hbody]
    exact (hread.block.delimited _ (by simp)).closed
  | later hstep h ih =>
    rw [List.append_assoc, levelAfter_closed_append hstep.closed] at hclosed
    exact ih hclosed

end Defects

/-- The call is for lines that close what they open, and what follows for reading them. -/
structure RangeCall.IsBalanced (entities : List Entity) (limit : Nat) (lines : List String)
    (c : RangeCall) : Prop where
  within : ∃ before after, lines = before ++ (c.lines ++ after) ∧ before.length = c.start
  ends : lineCount .close c.lines = lineCount .alt c.lines + lineCount .loop c.lines
  endsUpTo (front : List String) (h : front <+: c.lines) :
    lineCount .close front ≤ lineCount .alt front + lineCount .loop front
  /-- A block that the reader comes to goes from its first line to the end of the range. -/
  rest (b : BlockCall) (h : c.Meets entities limit b) :
    ∃ before, c.lines = before ++ b.lines ∧ b.start = c.start + before.length
  notClose (b : BlockCall) (h : c.Meets entities limit b) : b.keyword ≠ .close
  notElse (b : BlockCall) (h : c.Meets entities limit b) (hblock : c.block = some .alt) :
    b.keyword ≠ .otherwise
  found (b : BlockCall) (h : c.Meets entities limit b) (hopens : b.keyword.opensBlock = true) :
    (∃ close, blockEnd b.lines = .ok close) ∧
      ∃ boundaries, branchBoundaries b.lines = .ok boundaries
  errors (number : Nat) (defect : Defect)
    (h : c.outcome entities limit = .error (.onLine number defect)) : ¬ defect.IsUnbalanced

section Calls

variable {entities : List Entity} {limit : Nat} {lines : List String} {c : RangeCall}

theorem Reached.within (h : Reached entities limit lines c) :
    ∃ before after, lines = before ++ (c.lines ++ after) ∧ before.length = c.start := by
  induction h with
  | whole => exact ⟨[], [], by simp, rfl⟩
  | inside h hmeets henters ih =>
    obtain ⟨before, after, rfl, hstart⟩ := ih
    obtain ⟨steps, hholds⟩ := hmeets.exists_holds
    obtain ⟨sections, s, others, closer, tail, hcuts, rfl, rfl⟩ :=
      henters.exists_cuts hholds.head
    have hrange := hholds.lines
    have hblock := hcuts.lines
    simp only at hrange hstart
    refine ⟨before ++ steps ++ segmentLines sections ++ [s.opener],
      segmentLines others ++ closer :: tail ++ after, ?_, ?_⟩
    · simp [hrange, hblock]
    · simp only [List.length_append, List.length_singleton, hstart, hholds.start]

/-- Inside of a block the lines of a call are closed, and in a fork there is no `else` left. -/
theorem Reached.closed (h : Reached entities limit lines c) (hdepth : 1 ≤ c.depth) :
    levelAfter 0 c.lines = some 0 ∧ (c.block = some .alt → NoSeparator 0 c.lines) := by
  cases h with
  | whole => contradiction
  | inside h hmeets henters =>
    obtain ⟨steps, hholds⟩ := hmeets.exists_holds
    obtain ⟨sections, s, others, closer, tail, hcuts, rfl, rfl⟩ :=
      henters.exists_cuts hholds.head
    have hs := hcuts.block.delimited s (by simp)
    exact ⟨hs.closed, fun halt => hs.noSeparator (hcuts.notLoop (Option.some.inj halt))⟩

theorem RangeCall.Meets.exists_closed {b : BlockCall} (h : c.Meets entities limit b)
    (hclosed : levelAfter 0 c.lines = some 0) :
    ∃ line rest, b.lines = line :: rest ∧ Keyword.ofLine? line = some b.keyword ∧
      levelAfter 0 (line :: rest) = some 0 ∧
      (NoSeparator 0 c.lines → NoSeparator 0 (line :: rest)) := by
  obtain ⟨before, hholds⟩ := h.exists_holds
  obtain ⟨flow, hflow⟩ := hholds.steps
  obtain ⟨line, rest, hlines, hline⟩ := hholds.head
  have hbefore := hflow.balanced.closed
  rw [hholds.lines, hlines] at hclosed ⊢
  rw [levelAfter_closed_append hbefore] at hclosed
  exact ⟨line, rest, rfl, hline, hclosed, fun hno => hno.of_append hbefore⟩

theorem RangeCall.not_isUnbalanced (hclosed : levelAfter 0 c.lines = some 0) {number : Nat}
    {defect : Defect} (h : c.outcome entities limit = .error (.onLine number defect)) :
    ¬ defect.IsUnbalanced := by
  obtain ⟨before, line, after, defect', hlines, heq, hdefect⟩ :=
    parseSteps_blames entities limit c.budget c.start c.lines _ h
  obtain ⟨-, rfl⟩ := ParseError.onLine.inj heq
  rw [hlines] at hclosed
  exact hdefect.not_isUnbalanced hclosed

/-- Every call inside of a block is for balanced lines: all blocks in them end, and the reader does
not come to an `end` or, in the branch of a fork, to an `else`. -/
theorem Reached.isBalanced (h : Reached entities limit lines c) (hdepth : 1 ≤ c.depth) :
    c.IsBalanced entities limit lines := by
  obtain ⟨hclosed, hseparator⟩ := h.closed hdepth
  constructor
  case within => exact h.within
  case ends => exact lineCount_close_eq hclosed
  case endsUpTo => exact fun front hfront => lineCount_close_le hclosed hfront
  case rest =>
    intro b hmeets
    obtain ⟨before, hholds⟩ := hmeets.exists_holds
    exact ⟨before, hholds.lines, hholds.start⟩
  case notClose =>
    intro b hmeets hkeyword
    obtain ⟨line, rest, -, hline, hlevel, -⟩ := hmeets.exists_closed hclosed
    rw [hkeyword] at hline
    rw [levelAfter_cons, levelStep_close_zero hline] at hlevel
    contradiction
  case notElse =>
    intro b hmeets halt hkeyword
    obtain ⟨line, rest, -, hline, -, hno⟩ := hmeets.exists_closed hclosed
    rw [hkeyword] at hline
    exact hno (hseparator halt) [] line rest rfl rfl hline
  case found =>
    intro b hmeets hopens
    obtain ⟨line, rest, hlines, hline, hlevel, -⟩ := hmeets.exists_closed hclosed
    obtain ⟨e, hextent⟩ := exists_blockExtent hlevel hline hopens
    rw [← hlines] at hextent
    exact ⟨⟨_, blockEnd_eq_ok_iff.mpr ⟨e, hextent, rfl⟩⟩,
      _, branchBoundaries_eq_ok_iff.mpr ⟨e, hextent, rfl⟩⟩
  case errors => exact fun number defect herror => RangeCall.not_isUnbalanced hclosed herror

end Calls

def loopAroundFork : List String :=
  ["loop x", "alt y", "a ->> a : m", "else z", "a ->> a : n", "end", "end"]

/-- The call for the body of the loop. -/
def forkCall : RangeCall where
  depth := 1
  budget := 1
  block := some .loop
  start := 1
  lines := ["alt y", "a ->> a : m", "else z", "a ->> a : n", "end"]

/-- The call for the second branch. -/
def branchCall : RangeCall where
  depth := 2
  budget := 0
  block := some .alt
  start := 4
  lines := ["a ->> a : n"]

theorem isBalanced_loopAroundFork :
    (Reached [⟨"a", "A", .actor, true⟩] 2 loopAroundFork forkCall ∧
      forkCall.Meets [⟨"a", "A", .actor, true⟩] 2 ⟨.alt, 1, forkCall.lines⟩ ∧
      forkCall.IsBalanced [⟨"a", "A", .actor, true⟩] 2 loopAroundFork) ∧
    Reached [⟨"a", "A", .actor, true⟩] 2 loopAroundFork branchCall ∧
    branchCall.IsBalanced [⟨"a", "A", .actor, true⟩] 2 loopAroundFork := by
  have hloop : RangeCall.Meets [⟨"a", "A", .actor, true⟩] 2 ⟨0, 2, none, 0, loopAroundFork⟩
      ⟨.loop, 0, loopAroundFork⟩ := fun _ => rfl
  have hbody : BlockCall.Enters [⟨"a", "A", .actor, true⟩] 2 1 ⟨.loop, 0, loopAroundFork⟩ 1
      forkCall.lines := fun _ => rfl
  have hfork : forkCall.Meets [⟨"a", "A", .actor, true⟩] 2 ⟨.alt, 1, forkCall.lines⟩ :=
    fun _ => rfl
  have hbranch : BlockCall.Enters [⟨"a", "A", .actor, true⟩] 2 0 ⟨.alt, 1, forkCall.lines⟩ 4
      branchCall.lines := fun _ => rfl
  have hinner : Reached [⟨"a", "A", .actor, true⟩] 2 loopAroundFork forkCall :=
    .inside .whole hloop hbody
  have hinnermost : Reached [⟨"a", "A", .actor, true⟩] 2 loopAroundFork branchCall :=
    .inside hinner hfork hbranch
  exact ⟨⟨hinner, hfork, hinner.isBalanced (by decide)⟩, hinnermost,
    hinnermost.isBalanced (by decide)⟩

end UseCaseFlow
