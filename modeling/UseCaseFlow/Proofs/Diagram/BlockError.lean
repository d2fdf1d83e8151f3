import UseCaseFlow.Proofs.Diagram.Segments
import UseCaseFlow.Proofs.Diagram.Sequence

/-!
# Errors of a block

Which errors the reader of a block raises: a block that does not end is reported for its opener, and
a block that is cut into segments fails with the first of them that is wrong.
-/

namespace UseCaseFlow

/-- The body is read as a flow of at least one step. -/
def Segment.Readable (entities : List Entity) (budget : Nat) (s : Segment) : Prop :=
  ∃ flow, flow ≠ [] ∧ FlowLines entities budget s.body flow

section Sections

variable {inner : LinesReader}

theorem parseSection_eq_error_iff {s : Section} {e : ParseError} :
    parseSection inner s = .error e ↔ inner (s.start + 1) s.body = .error e ∨
      inner (s.start + 1) s.body = .ok [] ∧ e = .onLine (s.start + 1) (.emptyBlock s.keyword) := by
  rw [parseSection, bind_eq_error_iff]
  constructor
  · rintro (h | ⟨steps, hsteps, h⟩)
    · exact Or.inl h
    · cases steps with
      | nil => exact Or.inr ⟨hsteps, (Except.error.inj h).symm⟩
      | cons step steps => contradiction
  · rintro (h | ⟨h, rfl⟩)
    · exact Or.inl h
    · exact Or.inr ⟨[], h, rfl⟩

theorem parseBranches_cons_eq_error_iff {taken : List String} {s : Section} {rest : List Section}
    {e : ParseError} : parseBranches inner taken (s :: rest) = .error e ↔
      s.condition ∈ taken ∧ e = .onLine (s.start + 1) (.duplicateBranch s.condition) ∨
      s.condition ∉ taken ∧ (parseSection inner s = .error e ∨
        ∃ body, parseSection inner s = .ok body ∧
          parseBranches inner (s.condition :: taken) rest = .error e) := by
  rw [parseBranches]
  by_cases h : s.condition ∈ taken
  · simp only [h, if_true, true_and, not_true_eq_false, false_and, or_false]
    exact ⟨fun h => (Except.error.inj h).symm, fun h => congrArg Except.error h.symm⟩
  · simp only [h, if_false, false_and, not_false_eq_true, true_and, false_or, bind_eq_error_iff,
      pure_ne_error, and_false, exists_false, or_false]

/-- What is wrong with one section, which stands after `start` lines. -/
def SectionFails (inner : LinesReader) (start : Nat) (taken : List String) (s : Segment)
    (e : ParseError) : Prop :=
  s.condition ∈ taken ∧ e = .onLine (start + 1) (.duplicateBranch s.condition) ∨
  s.condition ∉ taken ∧ (inner (start + 1) s.body = .error e ∨
    s.body = [] ∧ e = .onLine (start + 1) (.emptyBlock s.keyword))

variable {entities : List Entity} {budget : Nat}

theorem parseSection_segment_eq_ok_iff (hinner : inner.Follows entities budget) (start : Nat)
    {s : Segment} :
    (∃ body, parseSection inner ⟨start, s.keyword, s.condition, s.body⟩ = .ok body) ↔
      s.Readable entities budget := by
  simp only [parseSection_eq_ok_iff, Segment.Readable]
  constructor
  · rintro ⟨flow, hread, hne⟩
    exact ⟨flow, hne, (hinner _ _ _).mp hread⟩
  · rintro ⟨flow, hne, hread⟩
    exact ⟨flow, (hinner _ _ _).mpr hread, hne⟩

theorem parseSection_segment_eq_error_iff (hinner : inner.Follows entities budget) {start : Nat}
    {s : Segment} {e : ParseError} :
    parseSection inner ⟨start, s.keyword, s.condition, s.body⟩ = .error e ↔
      inner (start + 1) s.body = .error e ∨
        s.body = [] ∧ e = .onLine (start + 1) (.emptyBlock s.keyword) := by
  rw [parseSection_eq_error_iff, hinner, flowLines_nil_right]

/-- Reading the sections of a block fails at the first section that is wrong. -/
theorem parseBranches_sectionsOf_eq_error_iff (hinner : inner.Follows entities budget)
    {start : Nat} {taken : List String} {segments : List Segment} {e : ParseError} :
    parseBranches inner taken (sectionsOf start segments) = .error e ↔
      ∃ before s others, segments = before ++ s :: others ∧
        (∀ r ∈ before, r.Readable entities budget) ∧ (before.map (·.condition)).Nodup ∧
        (∀ r ∈ before, r.condition ∉ taken) ∧
        SectionFails inner (start + (segmentLines before).length)
          (before.map (·.condition) ++ taken) s e := by
  induction segments generalizing start taken with
  | nil => simp [sectionsOf, parseBranches]
  | cons first rest ih =>
    have hstart (before : List Segment) : start + (segmentLines (first :: before)).length =
        start + 1 + first.body.length + (segmentLines before).length := by
      simp only [segmentLines_cons, List.length_cons, List.length_append]
      omega
    have htaken (before : List Segment) (s : Segment) :
        s.condition ∈ before.map (·.condition) ++ first.condition :: taken ↔
          s.condition ∈ (first :: before).map (·.condition) ++ taken := by
      simp only [List.mem_append, List.map_cons, List.mem_cons]
      rw [or_left_comm, or_assoc]
    rw [sectionsOf, parseBranches_cons_eq_error_iff]
    simp only [parseSection_segment_eq_error_iff hinner]
    constructor
    · rintro (⟨hmem, rfl⟩ | ⟨hfresh, h | ⟨body, hbody, h⟩⟩)
      · exact ⟨[], first, rest, rfl, by simp, by simp, by simp, Or.inl ⟨by simpa using hmem, rfl⟩⟩
      · exact ⟨[], first, rest, rfl, by simp, by simp, by simp,
          Or.inr ⟨by simpa using hfresh, by simpa using h⟩⟩
      · obtain ⟨before, s, others, rfl, hread, hdistinct, hunused, hfails⟩ := ih.mp h
        refine ⟨first :: before, s, others, rfl, ?_, ?_, ?_, ?_⟩
        · rw [List.forall_mem_cons]
          exact ⟨(parseSection_segment_eq_ok_iff hinner start).mp ⟨body, hbody⟩, hread⟩
        · rw [List.map_cons, List.nodup_cons]
          refine ⟨fun hmem => ?_, hdistinct⟩
          obtain ⟨r, hr, heq⟩ := List.mem_map.mp hmem
          exact hunused r hr (heq ▸ List.mem_cons_self)
        · rw [List.forall_mem_cons]
          exact ⟨hfresh, fun r hr hmem => hunused r hr (List.mem_cons_of_mem _ hmem)⟩
        · simpa only [SectionFails, htaken, hstart] using hfails
    · rintro ⟨before, s, others, hsegments, hread, hdistinct, hunused, hfails⟩
      cases before with
      | nil =>
        obtain ⟨rfl, rfl⟩ := List.cons.inj hsegments
        rcases hfails with ⟨hmem, rfl⟩ | ⟨hfresh, h⟩
        · exact Or.inl ⟨by simpa using hmem, rfl⟩
        · exact Or.inr ⟨by simpa using hfresh, Or.inl (by simpa using h)⟩
      | cons head before =>
        obtain ⟨rfl, rfl⟩ := List.cons.inj hsegments
        rw [List.forall_mem_cons] at hread hunused
        rw [List.map_cons, List.nodup_cons] at hdistinct
        obtain ⟨body, hbody⟩ := (parseSection_segment_eq_ok_iff hinner start).mpr hread.1
        refine Or.inr ⟨hunused.1, Or.inr ⟨body, hbody, ih.mpr ?_⟩⟩
        refine ⟨before, s, others, rfl, hread.2, hdistinct.2, fun r hr hmem => ?_, ?_⟩
        · rcases List.mem_cons.mp hmem with heq | hmem
          · exact hdistinct.1 (List.mem_map.mpr ⟨r, hr, heq⟩)
          · exact hunused.2 r hr hmem
        · simpa only [SectionFails, htaken, hstart] using hfails

end Sections

section Blocks

variable {inner : LinesReader}

theorem parseLoop_eq_error_iff {start : Nat} {lines : List String} {e : ParseError} :
    parseLoop inner start lines = .error e ↔
      (∃ cause, blockEnd lines = .error cause ∧ cause.shifted start = e) ∨
        ∃ close, blockEnd lines = .ok close ∧
          parseSection inner (sectionAt start .loop lines 0 close) = .error e := by
  simp only [parseLoop, bind_eq_error_iff, mapError_eq_error_iff, mapError_eq_ok_iff,
    pure_ne_error, and_false, exists_false, or_false]

theorem parseFork_eq_error_iff {start : Nat} {lines : List String} {e : ParseError} :
    parseFork inner start lines = .error e ↔
      (∃ cause, branchBoundaries lines = .error cause ∧ cause.shifted start = e) ∨
        ∃ boundaries, branchBoundaries lines = .ok boundaries ∧
          parseBranches inner [] (sectionsFrom start .alt lines 0 boundaries) = .error e := by
  simp only [parseFork, bind_eq_error_iff, mapError_eq_error_iff, mapError_eq_ok_iff,
    pure_ne_error, and_false, exists_false, or_false]

theorem blockEnd_segment {s : Segment} (h : s.Delimited) {closer : String}
    (hclose : Keyword.ofLine? closer = some .close) (tail : List String) :
    blockEnd (segmentLines [s] ++ closer :: tail) = .ok (1 + s.body.length) := by
  obtain ⟨e, hscan, hend⟩ := exists_scanBlock_close 1 h.closed hclose tail
  rw [blockEnd_eq_ok_iff]
  exact ⟨e, by simpa [blockExtent?] using hscan, hend⟩

theorem branchBoundaries_segments {s : Segment} {others : List Segment} (h : s.Delimited)
    (hkeyword : s.keyword ≠ .loop) (hothers : ∀ o ∈ others, o.IsElse) {closer : String}
    (hclose : Keyword.ofLine? closer = some .close) (tail : List String) :
    branchBoundaries (segmentLines (s :: others) ++ closer :: tail) =
      .ok (extentOf (1 + s.body.length) others).boundaries := by
  rw [branchBoundaries_eq_ok_iff]
  refine ⟨_, ?_, rfl⟩
  rw [segmentLines_cons, List.cons_append, blockExtent?, List.tail_cons, List.append_assoc,
    scanBlock_body h.closed (h.noSeparator hkeyword), scanBlock_segments hothers hclose]

theorem parseBlock_segments_eq_error_iff {s : Segment} {others : List Segment}
    (hblock : BlockSegments (s :: others)) {closer : String}
    (hclose : Keyword.ofLine? closer = some .close) {start : Nat} {tail : List String}
    {e : ParseError} :
    parseBlock inner s.keyword start (segmentLines (s :: others) ++ closer :: tail) = .error e ↔
      parseBranches inner [] (sectionsOf start (s :: others)) = .error e := by
  cases hblock with
  | loop hkeyword h =>
    have hsection : sectionAt start .loop (segmentLines [s] ++ closer :: tail) 0
        (1 + s.body.length) = ⟨start, s.keyword, s.condition, s.body⟩ := by
      have hat := sectionAt_append start s.keyword [] s.body (closer :: tail) s.opener
      rw [hkeyword] at hat ⊢
      simpa [Segment.condition, hkeyword] using hat
    have hparse : parseBlock inner s.keyword start (segmentLines [s] ++ closer :: tail) =
        parseLoop inner start (segmentLines [s] ++ closer :: tail) := by
      rw [hkeyword]
      rfl
    have hlast : ¬ ∃ body, parseSection inner ⟨start, s.keyword, s.condition, s.body⟩ = .ok body ∧
        parseBranches inner [s.condition] [] = .error e := by
      rintro ⟨body, -, h⟩
      contradiction
    simp only [hparse, parseLoop_eq_error_iff, blockEnd_segment h hclose, reduceCtorEq, false_and,
      exists_false, false_or, Except.ok.injEq, exists_eq_left', hsection, sectionsOf,
      parseBranches_cons_eq_error_iff, List.not_mem_nil, not_false_eq_true, true_and, hlast,
      or_false]
  | fork hkeyword h hothers =>
    have hboundaries := branchBoundaries_segments h (by simp [hkeyword]) hothers hclose tail
    have hsections := sectionsFrom_boundaries hothers start s [] (closer :: tail)
    have hparse : parseBlock inner s.keyword start (segmentLines (s :: others) ++ closer :: tail) =
        parseFork inner start (segmentLines (s :: others) ++ closer :: tail) := by
      rw [hkeyword]
      rfl
    rw [hkeyword] at hsections
    simp only [List.length_nil, List.nil_append, Nat.zero_add, Nat.add_zero] at hsections
    simp only [hparse, parseFork_eq_error_iff, hboundaries, reduceCtorEq, false_and, exists_false,
      false_or, Except.ok.injEq, exists_eq_left', hsections]

theorem parseBlock_eq_error_of_open (inner : LinesReader) {line : String} {rest : List String}
    {keyword : Keyword} {depth : Nat} (hline : Keyword.ofLine? line = some keyword)
    (h : keyword.opensBlock = true) (hopen : levelAfter 0 rest = some depth) (start : Nat) :
    parseBlock inner keyword start (line :: rest) =
      .error (.onLine (start + 1) (.unterminatedBlock keyword)) := by
  have hscan : scanBlock 0 1 rest = none := scanBlock_eq_none_iff.mpr ⟨depth, hopen⟩
  have hopener (fallback : Keyword) : openerOf fallback (line :: rest) = keyword := by
    simp [openerOf, hline, h]
  have hextent (fallback : Keyword) : requireExtent fallback (line :: rest) =
      .error (.onLine 1 (.unterminatedBlock keyword)) := by
    simp only [requireExtent, blockExtent?, List.tail_cons, hscan, hopener]
  have hshifted : (ParseError.onLine 1 (.unterminatedBlock keyword)).shifted start =
      .onLine (start + 1) (.unterminatedBlock keyword) := by
    rw [ParseError.shifted, Nat.add_comm]
  cases keyword with
  | alt =>
    refine parseFork_eq_error_iff.mpr (Or.inl ⟨_, ?_, hshifted⟩)
    exact bind_eq_error_iff.mpr (Or.inl (hextent .alt))
  | loop =>
    refine parseLoop_eq_error_iff.mpr (Or.inl ⟨_, ?_, hshifted⟩)
    exact bind_eq_error_iff.mpr (Or.inl (hextent .loop))
  | actor | participant | otherwise | close => contradiction

end Blocks

end UseCaseFlow
