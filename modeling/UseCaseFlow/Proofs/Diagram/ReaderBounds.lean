import Mathlib.Data.List.Forall2
import UseCaseFlow.Proofs.Diagram.ReaderLoop

/-!
# The reader stays in bounds and comes to an end

Every call is told where to stop: the first one at the end of the lines, and a call for the inside of
a block at a line that the scan of the block has found. Its range is the lines up to there, every
round goes on to a later line of this range, and the calls that it makes are for shorter ranges
inside. Blocks are entered no deeper than the limit says, so that neither the rounds of a call nor
the calls go on for ever.
-/

namespace UseCaseFlow

/-- The range is the lines from the index `start` up to the index `stop`, and both are in bounds. -/
structure IsSlice (lines : List String) (start stop : Nat) (range : List String) : Prop where
  ascending : start ≤ stop
  inside : stop ≤ lines.length
  eq : range = (lines.take stop).drop start

section Slices

variable {lines range part before after : List String} {line : String}
  {start stop first last : Nat}

theorem isSlice_iff : IsSlice lines start stop range ↔ ∃ before after,
    lines = before ++ (range ++ after) ∧ before.length = start ∧ start + range.length = stop := by
  constructor
  · rintro ⟨hascending, hinside, rfl⟩
    have hmin : min start stop = start := Nat.min_eq_left hascending
    refine ⟨lines.take start, lines.drop stop, ?_, ?_, ?_⟩
    · have htake := List.take_append_drop start (lines.take stop)
      rw [List.take_take, hmin] at htake
      rw [← List.append_assoc, htake, List.take_append_drop]
    · rw [List.length_take_of_le (Nat.le_trans hascending hinside)]
    · rw [List.length_drop, List.length_take_of_le hinside]
      omega
  · rintro ⟨before, after, rfl, rfl, rfl⟩
    constructor
    case ascending => exact Nat.le_add_right _ _
    case inside => simp only [List.length_append]; omega
    case eq => rw [List.take_length_add_append, List.take_left, List.drop_left]

theorem IsSlice.length_eq (h : IsSlice lines start stop range) : start + range.length = stop := by
  obtain ⟨before, after, -, -, hstop⟩ := isSlice_iff.mp h
  exact hstop

theorem IsSlice.trans (h : IsSlice lines start stop range) (hpart : IsSlice range first last part) :
    IsSlice lines (start + first) (start + last) part := by
  obtain ⟨before, after, rfl, rfl, rfl⟩ := isSlice_iff.mp h
  obtain ⟨front, back, rfl, rfl, rfl⟩ := isSlice_iff.mp hpart
  refine isSlice_iff.mpr ⟨before ++ front, back ++ after, ?_, ?_, ?_⟩
  · simp
  · rw [List.length_append]
  · rw [Nat.add_assoc]

theorem isSlice_append_left (before range : List String) :
    IsSlice (before ++ range) before.length (before ++ range).length range :=
  isSlice_iff.mpr ⟨before, [], by simp, rfl, by simp⟩

theorem IsSlice.behind (h : IsSlice lines start stop (before ++ range)) :
    IsSlice lines (start + before.length) stop range := by
  have hrange := h.trans (isSlice_append_left before range)
  rwa [h.length_eq] at hrange

theorem IsSlice.getElem?_eq (h : IsSlice lines start stop range) {i : Nat} (hi : i < range.length) :
    lines[start + i]? = range[i]? := by
  obtain ⟨before, after, rfl, rfl, rfl⟩ := isSlice_iff.mp h
  rw [List.getElem?_append_right (Nat.le_add_right _ _), Nat.add_sub_cancel_left,
    List.getElem?_append_left hi]

end Slices

/-- The section goes from the opening line with index `opener`, counted from `position`, up to the
line with index `boundary`, which is in front of `stop`. Its condition is that of its opening line,
and its body is the lines between. -/
structure Section.LiesIn (lines : List String) (position stop opener boundary : Nat) (s : Section) :
    Prop where
  ascending : opener < boundary
  inside : position + boundary < stop
  start : s.start = position + opener
  condition : ∃ line, lines[position + opener]? = some line ∧ s.condition = s.keyword.restOf line
  body : IsSlice lines (position + opener + 1) (position + boundary) s.body

section Sections

variable {lines range : List String} {position stop first opener boundary boundary' : Nat}
  {keyword : Keyword} {boundaries : List Nat}

theorem sectionAt_liesIn (h : IsSlice lines position stop range) (hopener : opener < boundary)
    (hboundary : boundary < range.length) :
    (sectionAt position keyword range opener boundary).LiesIn lines position stop opener
      boundary := by
  have hlength := h.length_eq
  have hlt := Nat.lt_trans hopener hboundary
  constructor
  case ascending => exact hopener
  case inside => omega
  case start => rfl
  case condition =>
    refine ⟨range[opener], ?_, ?_⟩
    · rw [h.getElem?_eq hlt, List.getElem?_eq_getElem hlt]
    · simp [sectionAt, List.getD_eq_getElem?_getD, hlt]
  case body => exact h.trans ⟨hopener, Nat.le_of_lt hboundary, rfl⟩

/-- Ascending boundaries in the range cut it into sections from each boundary to the next. -/
theorem sectionsFrom_liesIn (h : IsSlice lines position stop range)
    (hascending : (opener :: boundaries).Pairwise (· < ·))
    (hinside : ∀ b ∈ boundaries, b < range.length) :
    List.Forall₂ (fun s ends => s.LiesIn lines position stop ends.1 ends.2)
      (sectionsFrom position keyword range opener boundaries)
      ((opener :: boundaries).zip boundaries) := by
  induction boundaries generalizing keyword opener with
  | nil => exact .nil
  | cons boundary rest ih =>
    rw [List.forall_mem_cons] at hinside
    obtain ⟨hfirst, hrest⟩ := List.pairwise_cons.mp hascending
    rw [sectionsFrom, List.zip_cons_cons]
    apply List.Forall₂.cons
    · exact sectionAt_liesIn h (hfirst boundary List.mem_cons_self) hinside.1
    · exact ih hrest hinside.2

theorem exists_sectionAt_of_mem {s : Section}
    (h : s ∈ sectionsFrom position keyword range opener boundaries) :
    ∃ keyword' opener' boundary, (opener', boundary) ∈ (opener :: boundaries).zip boundaries ∧
      s = sectionAt position keyword' range opener' boundary := by
  induction boundaries generalizing keyword opener with
  | nil => simp [sectionsFrom] at h
  | cons boundary rest ih =>
    rw [sectionsFrom, List.mem_cons] at h
    rcases h with rfl | h
    · exact ⟨keyword, opener, boundary, List.mem_cons_self, rfl⟩
    · obtain ⟨keyword', opener', boundary', hmem, rfl⟩ := ih h
      exact ⟨keyword', opener', boundary', List.mem_cons_of_mem _ hmem, rfl⟩

theorem lt_of_mem_zip (h : (first :: boundaries).Pairwise (· < ·))
    (hmem : (opener, boundary) ∈ (first :: boundaries).zip boundaries) : opener < boundary := by
  induction boundaries generalizing first with
  | nil => simp at hmem
  | cons next rest ih =>
    obtain ⟨hfirst, hrest⟩ := List.pairwise_cons.mp h
    rw [List.zip_cons_cons, List.mem_cons] at hmem
    rcases hmem with heq | hmem
    · obtain ⟨rfl, rfl⟩ := Prod.mk.inj heq
      exact hfirst _ List.mem_cons_self
    · exact ih hrest hmem

theorem eq_of_mem_zip (h : (first :: boundaries).Pairwise (· < ·))
    (hmem : (opener, boundary) ∈ (first :: boundaries).zip boundaries)
    (hmem' : (opener, boundary') ∈ (first :: boundaries).zip boundaries) :
    boundary = boundary' := by
  induction boundaries generalizing first with
  | nil => simp at hmem
  | cons next rest ih =>
    obtain ⟨hfirst, hrest⟩ := List.pairwise_cons.mp h
    -- The later boundaries are greater than the first, so that it is not met again.
    have hlater (b : Nat) (hb : (first, b) ∈ (next :: rest).zip rest) : False :=
      Nat.lt_irrefl first (hfirst first (List.of_mem_zip hb).1)
    rw [List.zip_cons_cons, List.mem_cons] at hmem hmem'
    rcases hmem with heq | hmem
    · obtain ⟨rfl, rfl⟩ := Prod.mk.inj heq
      rcases hmem' with heq' | hmem'
      · exact (Prod.mk.inj heq').2.symm
      · exact (hlater _ hmem').elim
    · rcases hmem' with heq' | hmem'
      · obtain ⟨rfl, -⟩ := Prod.mk.inj heq'
        exact (hlater _ hmem).elim
      · exact ih hrest hmem hmem'

theorem boundaries_of_blockExtent? {e : Extent} (h : blockExtent? range = some e) :
    (0 :: e.boundaries).Pairwise (· < ·) ∧ ∀ b ∈ e.boundaries, b < range.length := by
  obtain ⟨hmarks, hascending⟩ := marks_of_blockExtent? h
  refine ⟨hascending, fun b hb => ?_⟩
  have hwithin := (hmarks.within b hb).2
  omega

theorem boundaries_of_branchBoundaries (h : branchBoundaries range = .ok boundaries) :
    (0 :: boundaries).Pairwise (· < ·) ∧ ∀ b ∈ boundaries, b < range.length := by
  obtain ⟨e, hextent, rfl⟩ := branchBoundaries_eq_ok_iff.mp h
  exact boundaries_of_blockExtent? hextent

theorem close_of_blockEnd {close : Nat} (h : blockEnd range = .ok close) :
    0 < close ∧ close < range.length := by
  obtain ⟨e, hextent, rfl⟩ := blockEnd_eq_ok_iff.mp h
  obtain ⟨hascending, hinside⟩ := boundaries_of_blockExtent? hextent
  have hmem : e.close ∈ e.boundaries := List.mem_append_right _ (List.mem_singleton_self _)
  exact ⟨(List.pairwise_cons.mp hascending).1 _ hmem, hinside _ hmem⟩

end Sections

/-- The scan of the block finds a section from the line with index `opener` up to the line with
index `boundary`. -/
inductive BlockCall.Delimits (b : BlockCall) : (opener boundary : Nat) → Prop
  | loop {close : Nat} (hkeyword : b.keyword = .loop) (h : blockEnd b.lines = .ok close) :
      Delimits b 0 close
  | fork {boundaries : List Nat} {opener boundary : Nat} (hkeyword : b.keyword = .alt)
      (h : branchBoundaries b.lines = .ok boundaries)
      (hnext : (opener, boundary) ∈ (0 :: boundaries).zip boundaries) : Delimits b opener boundary

section Delimits

variable {entities : List Entity} {limit budget start opener boundary boundary' : Nat}
  {inside : List String} {b : BlockCall}

theorem BlockCall.Delimits.bounds (h : b.Delimits opener boundary) :
    opener < boundary ∧ boundary < b.lines.length := by
  cases h with
  | loop hkeyword h => exact close_of_blockEnd h
  | fork hkeyword h hnext =>
    obtain ⟨hascending, hinside⟩ := boundaries_of_branchBoundaries h
    exact ⟨lt_of_mem_zip hascending hnext, hinside _ (List.of_mem_zip hnext).2⟩

theorem BlockCall.Delimits.unique (h : b.Delimits opener boundary)
    (h' : b.Delimits opener boundary') : boundary = boundary' := by
  cases h with
  | loop hkeyword h =>
    cases h' with
    | loop _ h' => exact Except.ok.inj (h.symm.trans h')
    | fork hkeyword' => simp [hkeyword] at hkeyword'
  | fork hkeyword h hnext =>
    cases h' with
    | loop hkeyword' => simp [hkeyword] at hkeyword'
    | fork _ h' hnext' =>
      obtain rfl := Except.ok.inj (h.symm.trans h')
      exact eq_of_mem_zip (boundaries_of_branchBoundaries h).1 hnext hnext'

/-- Reading a block, the reader is only called for the bodies of sections that the scan finds. -/
theorem BlockCall.Enters.exists_delimits (h : b.Enters entities limit budget start inside) :
    ∃ keyword opener boundary, b.Delimits opener boundary ∧ b.start + opener + 1 = start ∧
      (sectionAt b.start keyword b.lines opener boundary).body = inside := by
  apply h.of_agree (P := fun q => ∃ keyword opener boundary, b.Delimits opener boundary ∧
    b.start + opener + 1 = q.1 ∧ (sectionAt b.start keyword b.lines opener boundary).body = q.2)
  intro other hagree
  obtain ⟨keyword, position, lines⟩ := b
  cases keyword with
  | loop =>
    simp only [parseBlock, parseLoop]
    cases hclose : blockEnd lines with
    | error e => rfl
    | ok close =>
      simp only [Except.mapError, ok_bind]
      congr 1
      apply parseSection_congr
      exact hagree (position + 0 + 1, _) ⟨.loop, 0, close, .loop rfl hclose, rfl, rfl⟩
  | alt =>
    simp only [parseBlock, parseFork]
    cases hboundaries : branchBoundaries lines with
    | error e => rfl
    | ok boundaries =>
      simp only [Except.mapError, ok_bind]
      congr 1
      apply parseBranches_congr
      intro s hs
      obtain ⟨keyword, opener, boundary, hnext, rfl⟩ := exists_sectionAt_of_mem hs
      exact hagree (position + opener + 1, _)
        ⟨keyword, opener, boundary, .fork rfl hboundaries hnext, rfl, rfl⟩
  | actor | participant | otherwise | close => rfl

end Delimits

/-- In the round at `position` the outer call comes to a block, and it makes the inner call for a
section that the scan of this block has found. The inner call has to stop where the section does. -/
inductive RangeCall.Calls (entities : List Entity) (limit : Nat) :
    (outer : RangeCall) → (position : Nat) → (inner : RangeCall) → (stop : Nat) → Prop
  | intro {depth budget : Nat} {block : Option Keyword} {start position opener boundary : Nat}
      {steps : Flow} {range rest inside : List String} {line : String} {keyword : Keyword}
      (hvisits : RangeCall.Visits entities limit ⟨depth, budget + 1, block, start, range⟩
        ⟨steps, position, line :: rest⟩)
      (hline : Keyword.ofLine? line = some keyword)
      (hdelimits : BlockCall.Delimits ⟨keyword, position, line :: rest⟩ opener boundary)
      (henters : BlockCall.Enters entities limit budget ⟨keyword, position, line :: rest⟩
        (position + opener + 1) inside) :
      Calls entities limit ⟨depth, budget + 1, block, start, range⟩ position
        ⟨depth + 1, budget, some keyword, position + opener + 1, inside⟩ (position + boundary)

/-- The call has to stop at this index: at the end of the sequence, or where its caller says. -/
inductive RangeCall.StopsAt (entities : List Entity) (limit : Nat) (lines : List String) :
    RangeCall → (stop : Nat) → Prop
  | whole : StopsAt entities limit lines ⟨0, limit, none, 0, lines⟩ lines.length
  | inside {outer inner : RangeCall} {position stop stop' : Nat}
      (h : StopsAt entities limit lines outer stop)
      (hcalls : outer.Calls entities limit position inner stop') :
      StopsAt entities limit lines inner stop'

section Calls

variable {entities : List Entity} {limit position stop stop' : Nat} {lines : List String}
  {c outer inner : RangeCall}

theorem Reached.of_calls (h : Reached entities limit lines outer)
    (hcalls : outer.Calls entities limit position inner stop) :
    Reached entities limit lines inner := by
  cases hcalls with
  | intro hvisits hline hdelimits henters =>
    exact .inside h (RangeCall.meets_iff_visits.mpr ⟨_, _, _, rfl, hline, hvisits⟩) henters

theorem RangeCall.StopsAt.reached (h : c.StopsAt entities limit lines stop) :
    Reached entities limit lines c := by
  induction h with
  | whole => exact .whole
  | inside h hcalls ih => exact ih.of_calls hcalls

theorem Reached.exists_stopsAt (h : Reached entities limit lines c) :
    ∃ stop, c.StopsAt entities limit lines stop := by
  induction h with
  | whole => exact ⟨lines.length, .whole⟩
  | @inside depth budget block start start' range range' b h hmeets henters ih =>
    obtain ⟨stop, hstop⟩ := ih
    obtain ⟨steps, line, rest, hlines, hline, hvisits⟩ := RangeCall.meets_iff_visits.mp hmeets
    obtain ⟨keyword', opener, boundary, hdelimits, rfl, -⟩ := henters.exists_delimits
    obtain ⟨keyword, position, _⟩ := b
    obtain rfl := hlines
    exact ⟨position + boundary, hstop.inside (.intro hvisits hline hdelimits henters)⟩

/-- The blocks around a call and those that may be nested in it are as many as the limit says. -/
theorem Reached.depth_add_budget (h : Reached entities limit lines c) :
    c.depth + c.budget = limit := by
  induction h with
  | whole => exact Nat.zero_add limit
  | inside h hmeets henters ih =>
    simp only at ih ⊢
    omega

theorem Reached.depth_le (h : Reached entities limit lines c) : c.depth ≤ limit := by
  have hsum := h.depth_add_budget
  omega

theorem RangeCall.Visits.isSlice {s : LoopState} (hc : IsSlice lines c.start stop c.lines)
    (h : c.Visits entities limit s) : IsSlice lines s.position stop s.left := by
  obtain ⟨before, hlines, hposition, -⟩ := h.exists_flowLines
  rw [hlines] at hc
  rw [hposition]
  exact hc.behind

/-- An inner call is for lines behind the opener and in front of the `end` of its block. -/
theorem RangeCall.Calls.bounds (hc : IsSlice lines outer.start stop outer.lines)
    (h : outer.Calls entities limit position inner stop') :
    position < inner.start ∧ stop' < stop ∧ IsSlice lines inner.start stop' inner.lines := by
  cases h with
  | @intro depth budget block start _ opener boundary steps range rest inside line keyword hvisits
      hline hdelimits henters =>
    have hleft : IsSlice lines position stop (line :: rest) := hvisits.isSlice hc
    obtain ⟨keyword', opener', boundary', hdelimits', hstart, hinside⟩ := henters.exists_delimits
    obtain rfl : opener' = opener := by
      simp only at hstart
      omega
    -- The scan finds one section behind an opener, so the range ends where the call has to stop.
    obtain rfl := hdelimits'.unique hdelimits
    obtain ⟨hopener, hboundary⟩ := hdelimits.bounds
    have hsection : (sectionAt position keyword' (line :: rest) opener' boundary').LiesIn lines
        position stop opener' boundary' := sectionAt_liesIn hleft hopener hboundary
    simp only at hinside ⊢
    refine ⟨by omega, hsection.inside, ?_⟩
    rw [← hinside]
    exact hsection.body

theorem RangeCall.StopsAt.isSlice (h : c.StopsAt entities limit lines stop) :
    IsSlice lines c.start stop c.lines := by
  induction h with
  | whole => exact isSlice_iff.mpr ⟨[], [], by simp, rfl, by simp⟩
  | inside h hcalls ih => exact (hcalls.bounds ih).2.2

theorem RangeCall.Calls.depth_eq (h : outer.Calls entities limit position inner stop) :
    inner.depth = outer.depth + 1 := by
  cases h with
  | intro hvisits hline hdelimits henters => rfl

theorem RangeCall.Calls.budget_lt (h : outer.Calls entities limit position inner stop) :
    inner.budget < outer.budget := by
  cases h with
  | intro hvisits hline hdelimits henters => exact Nat.lt_succ_self _

theorem wellFounded_calls (entities : List Entity) (limit : Nat) :
    WellFounded fun inner outer : RangeCall =>
      ∃ position stop, outer.Calls entities limit position inner stop := by
  apply Subrelation.wf _ (measure RangeCall.budget).wf
  rintro inner outer ⟨position, stop, h⟩
  exact h.budget_lt

end Calls

/-- A round of the call reads the line at its index, and no more than the lines from there up to
`stop`. -/
structure RangeCall.RoundInBounds (entities : List Entity) (limit : Nat) (lines : List String)
    (c : RangeCall) (stop position : Nat) (line : String) (rest : List String) : Prop where
  inside : position < stop
  reads : lines[position]? = some line
  left : IsSlice lines position stop (line :: rest)
  /-- The next round is at a later line, or the range ends. -/
  advances (step : Step) (next : Nat)
    (h : c.stepAt entities limit position line rest = .ok (step, next)) :
    position < next ∧ next ≤ stop
  body (close : Nat) (h : blockEnd (line :: rest) = .ok close) :
    (sectionAt position .loop (line :: rest) 0 close).LiesIn lines position stop 0 close
  /-- There is a section from the opener to the first boundary, and from each to the next. -/
  branches (boundaries : List Nat) (h : branchBoundaries (line :: rest) = .ok boundaries) :
    List.Forall₂ (fun s ends => s.LiesIn lines position stop ends.1 ends.2)
      (sectionsFrom position .alt (line :: rest) 0 boundaries) ((0 :: boundaries).zip boundaries)

/-- Every index that belongs to the call is in bounds, and the call comes to an end. -/
structure RangeCall.InBounds (entities : List Entity) (limit : Nat) (lines : List String)
    (c : RangeCall) (stop : Nat) : Prop where
  range : IsSlice lines c.start stop c.lines
  depth_le : c.depth ≤ limit
  caller : c = ⟨0, limit, none, 0, lines⟩ ∧ stop = lines.length ∨
    ∃ (outer : RangeCall) (stop' position : Nat), outer.StopsAt entities limit lines stop' ∧
      outer.Calls entities limit position c stop
  round (steps : Flow) (position : Nat) (line : String) (rest : List String)
    (h : c.Visits entities limit ⟨steps, position, line :: rest⟩) :
    c.RoundInBounds entities limit lines stop position line rest
  nested (position : Nat) (inner : RangeCall) (stop' : Nat)
    (h : c.Calls entities limit position inner stop') :
    inner.StopsAt entities limit lines stop' ∧ inner.depth = c.depth + 1 ∧ inner.depth ≤ limit ∧
      position < inner.start ∧ inner.start ≤ stop' ∧ stop' < stop
  /-- There are no more rounds than lines. -/
  rounds (s : LoopState) (h : c.Visits entities limit s) :
    c.start + s.steps.length ≤ s.position ∧ IsSlice lines s.position stop s.left
  ends : ∃ last, c.Visits entities limit last ∧ c.EndsAt entities limit stop last
  recursion : Acc (fun inner outer => ∃ position stop',
    outer.Calls entities limit position inner stop') c

section Bounds

variable {entities : List Entity} {limit stop position : Nat} {lines rest : List String}
  {line : String} {c : RangeCall}

theorem RangeCall.Visits.roundInBounds {steps : Flow}
    (hc : IsSlice lines c.start stop c.lines)
    (h : c.Visits entities limit ⟨steps, position, line :: rest⟩) :
    c.RoundInBounds entities limit lines stop position line rest := by
  have hleft : IsSlice lines position stop (line :: rest) := h.isSlice hc
  have hstop := hleft.length_eq
  rw [List.length_cons] at hstop
  constructor
  case inside => omega
  case reads => simpa using hleft.getElem?_eq (i := 0) (by simp)
  case left => exact hleft
  case advances =>
    intro step next hstep
    have hadvances := stepAt_advances hstep
    rw [List.length_cons] at hadvances
    omega
  case body =>
    intro close hclose
    obtain ⟨hpos, hlt⟩ := close_of_blockEnd hclose
    exact sectionAt_liesIn hleft hpos hlt
  case branches =>
    intro boundaries hboundaries
    obtain ⟨hascending, hinside⟩ := boundaries_of_branchBoundaries hboundaries
    exact sectionsFrom_liesIn hleft hascending hinside

theorem RangeCall.StopsAt.bounds (h : c.StopsAt entities limit lines stop) :
    c.InBounds entities limit lines stop := by
  have hslice := h.isSlice
  constructor
  case range => exact hslice
  case depth_le => exact h.reached.depth_le
  case caller =>
    cases h with
    | whole => exact Or.inl ⟨rfl, rfl⟩
    | inside h hcalls => exact Or.inr ⟨_, _, _, h, hcalls⟩
  case round => exact fun _ _ _ _ hvisits => hvisits.roundInBounds hslice
  case nested =>
    intro position inner stop' hcalls
    have hinner := h.inside hcalls
    obtain ⟨hposition, hstop, hrange⟩ := hcalls.bounds hslice
    exact ⟨hinner, hcalls.depth_eq, hinner.reached.depth_le, hposition, hrange.ascending, hstop⟩
  case rounds =>
    intro s hvisits
    exact ⟨hvisits.length_steps_le, hvisits.isSlice hslice⟩
  case ends => exact RangeCall.Visits.first.exists_endsAt hslice.length_eq
  case recursion => exact (wellFounded_calls entities limit).apply c

/-- Whatever the lines are, every call that is made to read them is told where to stop, and is in
bounds up to there. -/
theorem Reached.inBounds (h : Reached entities limit lines c) :
    (∃ stop, c.StopsAt entities limit lines stop) ∧
    ∀ stop, c.StopsAt entities limit lines stop → c.InBounds entities limit lines stop :=
  ⟨h.exists_stopsAt, fun _ hstop => hstop.bounds⟩

end Bounds

/-- The second branch of the fork holds a block that is nested too deep. -/
def loopInFork : List String :=
  ["alt x", "a ->> a : m", "else y", "loop z", "end", "end"]

def loopBranch : RangeCall where
  depth := 1
  budget := 0
  block := some .alt
  start := 3
  lines := ["loop z", "end"]

theorem inBounds_loopInFork :
    RangeCall.Calls [⟨"a", "A", .actor, true⟩] 1 ⟨0, 1, none, 0, loopInFork⟩ 0 loopBranch 5 ∧
    (Reached [⟨"a", "A", .actor, true⟩] 1 loopInFork loopBranch ∧
      loopBranch.StopsAt [⟨"a", "A", .actor, true⟩] 1 loopInFork 5 ∧
      loopBranch.InBounds [⟨"a", "A", .actor, true⟩] 1 loopInFork 5) ∧
    loopBranch.outcome [⟨"a", "A", .actor, true⟩] 1 = .error (.onLine 4 (.nestingTooDeep 1)) := by
  have hdelimits : BlockCall.Delimits ⟨.alt, 0, loopInFork⟩ 2 5 :=
    .fork rfl (rfl : branchBoundaries loopInFork = .ok [2, 5]) (by decide)
  have hcalls : RangeCall.Calls [⟨"a", "A", .actor, true⟩] 1 ⟨0, 1, none, 0, loopInFork⟩ 0
      loopBranch 5 := .intro .first rfl hdelimits fun _ => rfl
  have hstop : loopBranch.StopsAt [⟨"a", "A", .actor, true⟩] 1 loopInFork 5 :=
    RangeCall.StopsAt.whole.inside hcalls
  exact ⟨hcalls, ⟨hstop.reached, hstop, hstop.reached.inBounds.2 5 hstop⟩, rfl⟩

end UseCaseFlow
