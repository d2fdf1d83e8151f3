import Mathlib.Logic.Function.Basic
import UseCaseFlow.Proofs.Diagram.FirstDefect

/-!
# The calls of the reader

For which runs of lines the reader is called while it reads a sequence, and at which of their lines
it reads a block. The reader gives up at the first error, so it has made a call exactly if, with any
error as the answer to that call, it fails with this error.
-/

namespace UseCaseFlow

section Asks

variable {Q A R : Type} [DecidableEq Q] {run : (Q → Except ParseError A) → Except ParseError R}
  {answer : Q → Except ParseError A} {question : Q}

/-- With these answers the run asks the question: it fails with every error that is put in place of
the answer. -/
def Asks (run : (Q → Except ParseError A) → Except ParseError R)
    (answer : Q → Except ParseError A) (question : Q) : Prop :=
  ∀ e, run (Function.update answer question (.error e)) = .error e

/-- A run that only depends on the answers to some questions only asks these. -/
theorem Asks.of_agree (h : Asks run answer question) {P : Q → Prop}
    (hlocal : ∀ other, (∀ q, P q → other q = answer q) → run other = run answer) :
    P question := by
  by_contra hother
  have hfails (e : ParseError) : run answer = .error e := by
    rw [← h e]
    refine (hlocal _ fun q hq => Function.update_of_ne ?_ _ _).symm
    rintro rfl
    exact hother hq
  have hsame := (hfails .emptySequence).symm.trans (hfails (.onLine 0 (.nestingTooDeep 0)))
  simp at hsame

theorem Asks.eq_error {e : ParseError} (h : Asks run answer question)
    (hanswer : answer question = .error e) : run answer = .error e := by
  have hfails := h e
  rwa [← hanswer, Function.update_eq_self] at hfails

theorem not_asks (h : ∀ other, run other = run answer) : ¬ Asks run answer question :=
  fun hasks => hasks.of_agree (P := fun _ => False) fun other _ => h other

end Asks

/-- A call of the reader for `lines` that follow `start` others. They stand inside `depth` blocks,
the innermost with that keyword, and `budget` more blocks may be nested in them. -/
structure RangeCall where
  depth : Nat
  budget : Nat
  block : Option Keyword
  start : Nat
  lines : List String

/-- A call of the reader of blocks: with the keyword on the first of the lines, which follow `start`
others and go on to the end of the range. -/
structure BlockCall where
  keyword : Keyword
  start : Nat
  lines : List String
  deriving DecidableEq

variable {entities : List Entity} {limit budget : Nat}

def RangeCall.outcome (entities : List Entity) (limit : Nat) (c : RangeCall) :
    Except ParseError Flow :=
  parseSteps (IdIndex.ofEntities entities) limit c.budget c.start c.lines

/-- Reading the range, the reader comes to this block. -/
def RangeCall.Meets (entities : List Entity) (limit : Nat) (c : RangeCall) (b : BlockCall) : Prop :=
  Asks (fun answer => parseLines (IdIndex.ofEntities entities)
      (fun keyword start lines => answer ⟨keyword, start, lines⟩) 0 c.start c.lines)
    (fun b => blockReader (IdIndex.ofEntities entities) limit c.budget b.keyword b.start b.lines) b

/-- Reading the block, the reader is called for the lines that follow `start` others. -/
def BlockCall.Enters (entities : List Entity) (limit budget : Nat) (b : BlockCall) (start : Nat)
    (inside : List String) : Prop :=
  Asks (fun answer => parseBlock (fun start lines => answer (start, lines)) b.keyword b.start
      b.lines)
    (fun q => parseSteps (IdIndex.ofEntities entities) limit budget q.1 q.2) (start, inside)

inductive Reached (entities : List Entity) (limit : Nat) (lines : List String) : RangeCall → Prop
  | whole : Reached entities limit lines ⟨0, limit, none, 0, lines⟩
  | inside {depth budget : Nat} {block : Option Keyword} {start start' : Nat}
      {range range' : List String} {b : BlockCall}
      (h : Reached entities limit lines ⟨depth, budget + 1, block, start, range⟩)
      (hmeets : RangeCall.Meets entities limit ⟨depth, budget + 1, block, start, range⟩ b)
      (henters : b.Enters entities limit budget start' range') :
      Reached entities limit lines ⟨depth + 1, budget, some b.keyword, start', range'⟩

theorem Reached.parseSequence_eq_error {lines : List String} {c : RangeCall}
    (h : Reached entities limit lines c) {e : ParseError}
    (herror : c.outcome entities limit = .error e) :
    parseSequence entities lines limit = .error e := by
  induction h with
  | whole => exact bind_eq_error_iff.mpr (Or.inl herror)
  | @inside depth budget block start start' range range' b h hmeets henters ih =>
    have hblock : blockReader (IdIndex.ofEntities entities) limit (budget + 1) b.keyword b.start
        b.lines = .error e := henters.eq_error herror
    have hrange := hmeets.eq_error hblock
    apply ih
    rwa [RangeCall.outcome, parseSteps_eq_parseLines]

section Ranges

/-- The readers of blocks agree wherever a step of the lines begins with a keyword. -/
def AgreeAtSteps (entities : List Entity) (budget : Nat) (other block : BlockReader) (start : Nat)
    (lines : List String) : Prop :=
  ∀ before flow line rest keyword, lines = before ++ line :: rest →
    FlowLines entities budget before flow → Keyword.ofLine? line = some keyword →
    other keyword (start + before.length) (line :: rest) =
      block keyword (start + before.length) (line :: rest)

variable {other block : BlockReader} {start : Nat}

theorem AgreeAtSteps.head {line : String} {rest : List String} {keyword : Keyword}
    (h : AgreeAtSteps entities budget other block start (line :: rest))
    (hline : Keyword.ofLine? line = some keyword) :
    other keyword start (line :: rest) = block keyword start (line :: rest) :=
  h [] [] line rest keyword rfl .nil hline

theorem AgreeAtSteps.later {first rest : List String} {step : Step}
    (h : AgreeAtSteps entities budget other block start (first ++ rest))
    (hstep : StepLines entities budget first step) :
    AgreeAtSteps entities budget other block (start + first.length) rest := by
  intro before flow line rest' keyword hrest hbefore hline
  have hagree := h (first ++ before) _ line rest' keyword (by simp [hrest])
    (.cons hstep hbefore) hline
  rwa [List.length_append, ← Nat.add_assoc] at hagree

theorem AgreeAtSteps.readStep_eq {line : String} {rest : List String}
    (h : AgreeAtSteps entities budget other block start (line :: rest)) :
    readStep (IdIndex.ofEntities entities) other start line rest =
      readStep (IdIndex.ofEntities entities) block start line rest := by
  rw [readStep, readStep]
  cases hline : Keyword.ofLine? line with
  | none => rfl
  | some keyword => simp only [h.head hline]

/-- Which blocks are read only depends on the reader of blocks where a step begins. -/
theorem parseLines_congr (hfollows : block.Follows entities budget) {lines : List String}
    (h : AgreeAtSteps entities budget other block start lines) :
    parseLines (IdIndex.ofEntities entities) other 0 start lines =
      parseLines (IdIndex.ofEntities entities) block 0 start lines := by
  -- A block takes any number of lines, so the induction is on the number of lines.
  induction hsize : lines.length using Nat.strongRecOn generalizing start lines with
  | ind size ih =>
    cases lines with
    | nil => rfl
    | cons line rest =>
      have hsame := h.readStep_eq
      have hadvances (step : Step) (next : Nat) (hread : readStep (IdIndex.ofEntities entities)
          other start line rest = .ok (step, next)) : start < next := by
        rw [hsame] at hread
        exact (hfollows.readStep_advances hread).1
      rw [parseLines_cons hadvances, hfollows.parseLines_cons, hsame]
      cases hread : readStep (IdIndex.ofEntities entities) block start line rest with
      | error e => rfl
      | ok found =>
        obtain ⟨step, next⟩ := found
        have hlt := hfollows.length_drop_lt hread
        obtain ⟨length, rfl, hlength, hstep⟩ := hfollows.readStep_eq_ok_iff.mp hread
        rw [← List.take_append_drop length (line :: rest)] at h
        have hlater := h.later hstep
        rw [List.length_take_of_le hlength] at hlater
        rw [Nat.add_sub_cancel_left] at hlt
        simp only [ok_bind, Nat.add_sub_cancel_left, ih _ (hsize ▸ hlt) hlater rfl]

/-- The lines of the block are those of the range behind some steps. -/
structure RangeCall.Holds (entities : List Entity) (c : RangeCall) (b : BlockCall)
    (before : List String) : Prop where
  lines : c.lines = before ++ b.lines
  start : b.start = c.start + before.length
  steps : ∃ flow, FlowLines entities c.budget before flow
  head : ∃ line rest, b.lines = line :: rest ∧ Keyword.ofLine? line = some b.keyword

theorem RangeCall.Meets.exists_holds {c : RangeCall} {b : BlockCall}
    (h : c.Meets entities limit b) : ∃ before, c.Holds entities b before := by
  apply h.of_agree (P := fun b => ∃ before, c.Holds entities b before)
  intro answer hagree
  apply parseLines_congr (blockReader_follows entities limit c.budget)
  intro before flow line rest keyword hlines hflow hline
  apply hagree
  exact ⟨before, hlines, rfl, ⟨flow, hflow⟩, line, rest, rfl, hline⟩

end Ranges

section Blocks

variable {inner other : LinesReader} {start : Nat}

theorem parseSection_congr {s : Section}
    (h : other (s.start + 1) s.body = inner (s.start + 1) s.body) :
    parseSection other s = parseSection inner s := by
  rw [parseSection, parseSection, h]

theorem parseBranches_congr {taken : List String} {sections : List Section}
    (h : ∀ s ∈ sections, other (s.start + 1) s.body = inner (s.start + 1) s.body) :
    parseBranches other taken sections = parseBranches inner taken sections := by
  induction sections generalizing taken with
  | nil => rfl
  | cons s rest ih =>
    rw [List.forall_mem_cons] at h
    simp only [parseBranches, parseSection_congr h.1, ih h.2]

theorem exists_section_of_asks {answer : Nat × List String → Except ParseError Flow}
    {sections : List Section} {inside : List String}
    (h : Asks (fun answer => parseBranches (fun start lines => answer (start, lines)) [] sections)
      answer (start, inside)) : ∃ s ∈ sections, s.start + 1 = start ∧ s.body = inside := by
  apply h.of_agree (P := fun q => ∃ s ∈ sections, s.start + 1 = q.1 ∧ s.body = q.2)
  intro other hagree
  exact parseBranches_congr fun s hs => hagree _ ⟨s, hs, rfl, rfl⟩

theorem exists_of_mem_sectionsOf {segments : List Segment} {s : Section}
    (h : s ∈ sectionsOf start segments) : ∃ before segment others,
      segments = before ++ segment :: others ∧
      s.start = start + (segmentLines before).length ∧ s.body = segment.body := by
  induction segments generalizing start with
  | nil => simp [sectionsOf] at h
  | cons first rest ih =>
    rw [sectionsOf, List.mem_cons] at h
    rcases h with rfl | h
    · exact ⟨[], first, rest, rfl, rfl, rfl⟩
    · obtain ⟨before, segment, others, rfl, hstart, hbody⟩ := ih h
      refine ⟨first :: before, segment, others, rfl, ?_, hbody⟩
      rw [hstart, segmentLines_cons, List.length_cons, List.length_append]
      omega

/-- The call is for the body of `s` in a block of segments. -/
structure BlockCall.Cuts (b : BlockCall) (before : List Segment) (s : Segment)
    (others : List Segment) (closer : String) (tail : List String) : Prop where
  lines : b.lines = segmentLines (before ++ s :: others) ++ closer :: tail
  block : BlockSegments (before ++ s :: others)
  close : Keyword.ofLine? closer = some .close
  notLoop : b.keyword = .alt → s.keyword ≠ .loop

theorem BlockSegments.keyword_ne_loop {first : Segment} {others : List Segment}
    (h : BlockSegments (first :: others)) (hfirst : first.keyword = .alt) :
    ∀ s ∈ first :: others, s.keyword ≠ .loop := by
  rw [List.forall_mem_cons]
  constructor
  · simp [hfirst]
  · intro s hs
    simp [(h.isElse s hs).1]

/-- Reading a block, the reader is only called for the bodies of its segments. -/
theorem BlockCall.Enters.exists_cuts {b : BlockCall} {inside : List String}
    (h : b.Enters entities limit budget start inside)
    (hhead : ∃ line rest, b.lines = line :: rest ∧ Keyword.ofLine? line = some b.keyword) :
    ∃ before s others closer tail, b.Cuts before s others closer tail ∧
      start = b.start + (segmentLines before).length + 1 ∧ inside = s.body := by
  obtain ⟨keyword, position, lines⟩ := b
  obtain ⟨line, rest, rfl, hline⟩ : ∃ line rest, lines = line :: rest ∧
    Keyword.ofLine? line = some keyword := hhead
  cases hopens : keyword.opensBlock with
  | false =>
    refine absurd h (not_asks fun other => ?_)
    cases keyword with
    | alt | loop => contradiction
    | actor | participant | otherwise | close => rfl
  | true =>
    cases hextent : blockExtent? (line :: rest) with
    | none =>
      obtain ⟨depth, hopen⟩ : ∃ depth, levelAfter 0 rest = some depth :=
        scanBlock_eq_none_iff.mp hextent
      refine absurd h (not_asks fun other => ?_)
      rw [parseBlock_eq_error_of_open _ hline hopens hopen,
        parseBlock_eq_error_of_open _ hline hopens hopen]
    | some extent =>
      obtain ⟨first, later, closer, tail, hsegments, rfl, hblock, hclose⟩ :=
        exists_blockSegments hline hopens hextent
      have hsections : Asks (fun answer =>
          parseBranches (fun start lines => answer (start, lines)) []
            (sectionsOf position (first :: later)))
          (fun q => parseSteps (IdIndex.ofEntities entities) limit budget q.1 q.2)
          (start, inside) := by
        intro e
        have hfails := h e
        simp only [hsegments, parseBlock_segments_eq_error_iff hblock hclose] at hfails
        exact hfails
      obtain ⟨s, hs, hstart, hinside⟩ := exists_section_of_asks hsections
      obtain ⟨before, segment, others, heq, hposition, hbody⟩ := exists_of_mem_sectionsOf hs
      have hmem : segment ∈ first :: later := by simp [heq]
      have hnotLoop : first.keyword = .alt → segment.keyword ≠ .loop :=
        fun hfirst => hblock.keyword_ne_loop hfirst segment hmem
      rw [heq] at hsegments hblock
      refine ⟨before, segment, others, closer, tail, ⟨hsegments, hblock, hclose, hnotLoop⟩, ?_, ?_⟩
      · rw [← hstart, hposition]
      · rw [← hinside, hbody]

end Blocks

end UseCaseFlow
