import UseCaseFlow.Proofs.Diagram.Grammar
import UseCaseFlow.Proofs.Diagram.Nesting

/-!
# Blocks as segments of the text

A block is one segment if it is a loop, and one for the `alt` and each `else` if it is a fork. The
scan finds an end exactly if the lines start with such segments and an `end`, and then it cuts the
lines into these segments. The lines of a flow close every block that they open, and no other.
-/

namespace UseCaseFlow

/-- A section of a block as it stands in the text. -/
structure Segment where
  keyword : Keyword
  opener : String
  body : List String

def Segment.condition (s : Segment) : String :=
  s.keyword.restOf s.opener

def Segment.lines (s : Segment) : List String :=
  s.opener :: s.body

def segmentLines (segments : List Segment) : List String :=
  segments.flatMap Segment.lines

/-- The sections that are read, of which the first starts after `start` lines. -/
def sectionsOf (start : Nat) : List Segment → List Section
  | [] => []
  | s :: rest =>
    ⟨start, s.keyword, s.condition, s.body⟩ :: sectionsOf (start + 1 + s.body.length) rest

/-- No `else` among the lines stands outside of all blocks, of which `depth` are open before. -/
def NoSeparator (depth : Nat) (lines : List String) : Prop :=
  ∀ before line after, lines = before ++ line :: after → levelAfter depth before = some 0 →
    Keyword.ofLine? line ≠ some .otherwise

/-- The body closes what it opens. An `else` of its own level stands in the body of a loop only. -/
structure Segment.Delimited (s : Segment) : Prop where
  opener : Keyword.ofLine? s.opener = some s.keyword
  closed : levelAfter 0 s.body = some 0
  noSeparator : s.keyword ≠ .loop → NoSeparator 0 s.body

def Segment.IsElse (s : Segment) : Prop :=
  s.keyword = .otherwise ∧ s.Delimited

/-- The segments are all of one block. -/
inductive BlockSegments : List Segment → Prop
  | loop {s : Segment} (hkeyword : s.keyword = .loop) (h : s.Delimited) : BlockSegments [s]
  | fork {s : Segment} {others : List Segment} (hkeyword : s.keyword = .alt) (h : s.Delimited)
      (hothers : ∀ o ∈ others, o.IsElse) : BlockSegments (s :: others)

@[simp] theorem segmentLines_nil : segmentLines [] = [] := rfl

@[simp] theorem segmentLines_cons (s : Segment) (rest : List Segment) :
    segmentLines (s :: rest) = s.opener :: (s.body ++ segmentLines rest) := rfl

@[simp] theorem segmentLines_append (left right : List Segment) :
    segmentLines (left ++ right) = segmentLines left ++ segmentLines right :=
  List.flatMap_append

theorem BlockSegments.delimited {segments : List Segment} (h : BlockSegments segments) :
    ∀ s ∈ segments, s.Delimited := by
  cases h with
  | loop hkeyword h => exact List.forall_mem_singleton.mpr h
  | fork hkeyword h hothers => exact List.forall_mem_cons.mpr ⟨h, fun o ho => (hothers o ho).2⟩

theorem BlockSegments.isElse {first : Segment} {others : List Segment}
    (h : BlockSegments (first :: others)) : ∀ o ∈ others, o.IsElse := by
  cases h with
  | loop hkeyword h => simp
  | fork hkeyword h hothers => exact hothers

theorem BlockSegments.alt_of_ne_nil {first : Segment} {others : List Segment}
    (h : BlockSegments (first :: others)) (hne : others ≠ []) : first.keyword = .alt := by
  cases h with
  | loop hkeyword h => contradiction
  | fork hkeyword h hothers => exact hkeyword

theorem BlockSegments.isElse_after {before others : List Segment} {s : Segment}
    (h : BlockSegments (before ++ s :: others)) : ∀ o ∈ others, o.IsElse := by
  intro o ho
  cases before with
  | nil => exact h.isElse o ho
  | cons first before =>
    exact h.isElse o (List.mem_append_right _ (List.mem_cons_of_mem _ ho))

theorem NoSeparator.tail {depth depth' : Nat} {line : String} {rest : List String}
    (h : NoSeparator depth (line :: rest)) (hstep : levelStep depth line = some depth') :
    NoSeparator depth' rest := by
  intro before separator after hrest hlevel
  apply h (line :: before) separator after
  · rw [hrest, List.cons_append]
  · rw [levelAfter_cons, hstep, Option.bind_some, hlevel]

theorem NoSeparator.cons {depth depth' : Nat} {line : String} {rest : List String}
    (h : NoSeparator depth' rest) (hstep : levelStep depth line = some depth')
    (hline : depth = 0 → Keyword.ofLine? line ≠ some .otherwise) :
    NoSeparator depth (line :: rest) := by
  intro before separator after hlines hlevel
  cases before with
  | nil =>
    obtain ⟨rfl, -⟩ := List.cons.inj hlines
    exact hline (Option.some.inj hlevel)
  | cons first before =>
    obtain ⟨rfl, hrest⟩ := List.cons.inj hlines
    rw [levelAfter_cons, hstep, Option.bind_some] at hlevel
    exact h before separator after hrest hlevel

theorem closed_segmentLines {segments : List Segment} (h : ∀ s ∈ segments, s.IsElse) :
    levelAfter 0 (segmentLines segments) = some 0 := by
  induction segments with
  | nil => rfl
  | cons s rest ih =>
    rw [List.forall_mem_cons] at h
    have hopener : Keyword.ofLine? s.opener = some .otherwise := h.1.1 ▸ h.1.2.opener
    rw [segmentLines_cons, levelAfter_cons, levelStep_separator hopener, Option.bind_some,
      levelAfter_closed_append h.1.2.closed, ih h.2]

section Scan

variable {depth index : Nat} {lines : List String}

theorem scanBlock_pass {depth' : Nat} {line : String} (hstep : levelStep depth line = some depth')
    (hline : depth = 0 → Keyword.ofLine? line ≠ some .otherwise) (rest : List String) :
    scanBlock depth index (line :: rest) = scanBlock depth' (index + 1) rest := by
  cases hk : Keyword.ofLine? line with
  | none =>
    rw [levelStep_plain hk] at hstep
    rw [scanBlock_plain _ _ _ hk, Option.some.inj hstep]
  | some k =>
    cases k with
    | actor | participant =>
      have hsame : depth = depth' := by simpa [levelStep, hk] using hstep
      rw [scanBlock_declaration _ _ _ hk rfl, hsame]
    | alt | loop =>
      rw [levelStep_opener hk rfl] at hstep
      rw [scanBlock_opener _ _ _ hk rfl, Option.some.inj hstep]
    | otherwise =>
      rw [levelStep_separator hk] at hstep
      cases depth with
      | zero => exact absurd hk (hline rfl)
      | succ depth => rw [scanBlock_otherwise_succ _ _ _ hk, Option.some.inj hstep]
    | close =>
      cases depth with
      | zero => simp [levelStep_close_zero hk] at hstep
      | succ depth =>
        rw [levelStep_close_succ hk] at hstep
        rw [scanBlock_close_succ _ _ _ hk, Option.some.inj hstep]

theorem scanBlock_eq_none_iff :
    scanBlock depth index lines = none ↔ ∃ depth', levelAfter depth lines = some depth' := by
  induction lines generalizing depth index with
  | nil => simp [scanBlock]
  | cons line rest ih =>
    rw [levelAfter_cons]
    cases hstep : levelStep depth line with
    | none =>
      obtain ⟨rfl, hline⟩ := levelStep_eq_none_iff.mp hstep
      simp [scanBlock_close_zero _ _ hline]
    | some middle =>
      rw [Option.bind_some]
      by_cases hseparator : depth = 0 ∧ Keyword.ofLine? line = some .otherwise
      · obtain ⟨rfl, hline⟩ := hseparator
        rw [levelStep_separator hline] at hstep
        rw [scanBlock_otherwise_zero _ _ hline, Option.map_eq_none_iff, ih,
          Option.some.inj hstep]
      · rw [scanBlock_pass hstep (fun hzero hline => hseparator ⟨hzero, hline⟩), ih]

theorem exists_scanBlock_close (index : Nat) {inside : List String}
    (hinside : levelAfter depth inside = some 0) {closer : String}
    (hclose : Keyword.ofLine? closer = some .close) (rest : List String) :
    ∃ e, scanBlock depth index (inside ++ closer :: rest) = some e ∧
      e.close = index + inside.length := by
  induction inside generalizing depth index with
  | nil =>
    obtain rfl : depth = 0 := Option.some.inj hinside
    exact ⟨_, scanBlock_close_zero _ _ hclose, rfl⟩
  | cons line inside ih =>
    rw [levelAfter_cons, Option.bind_eq_some_iff] at hinside
    obtain ⟨middle, hstep, hinside⟩ := hinside
    obtain ⟨e, hscan, hend⟩ := ih (index + 1) hinside
    have hlength : index + (line :: inside).length = index + 1 + inside.length := by
      simp only [List.length_cons]
      omega
    rw [List.cons_append, hlength]
    by_cases hseparator : depth = 0 ∧ Keyword.ofLine? line = some .otherwise
    · obtain ⟨rfl, hline⟩ := hseparator
      rw [levelStep_separator hline] at hstep
      obtain rfl := Option.some.inj hstep
      exact ⟨e.addSeparator index, by simp [scanBlock_otherwise_zero _ _ hline, hscan], hend⟩
    · exact ⟨e, by rw [scanBlock_pass hstep (fun hzero hline => hseparator ⟨hzero, hline⟩), hscan],
        hend⟩

theorem scanBlock_body {body : List String} (hbody : levelAfter depth body = some 0)
    (hseparator : NoSeparator depth body) (rest : List String) :
    scanBlock depth index (body ++ rest) = scanBlock 0 (index + body.length) rest := by
  induction body generalizing depth index with
  | nil =>
    obtain rfl : depth = 0 := Option.some.inj hbody
    rfl
  | cons line body ih =>
    rw [levelAfter_cons, Option.bind_eq_some_iff] at hbody
    obtain ⟨middle, hstep, hbody⟩ := hbody
    have hline : depth = 0 → Keyword.ofLine? line ≠ some .otherwise := by
      rintro rfl
      exact hseparator [] line body rfl rfl
    rw [List.cons_append, scanBlock_pass hstep hline, ih hbody (hseparator.tail hstep),
      List.length_cons, Nat.add_assoc, Nat.add_comm 1]

def extentOf (index : Nat) : List Segment → Extent
  | [] => ⟨[], index⟩
  | s :: rest => (extentOf (index + 1 + s.body.length) rest).addSeparator index

theorem scanBlock_segments {others : List Segment} (hothers : ∀ s ∈ others, s.IsElse)
    {closer : String} (hclose : Keyword.ofLine? closer = some .close) (rest : List String) :
    scanBlock 0 index (segmentLines others ++ closer :: rest) = some (extentOf index others) := by
  induction others generalizing index with
  | nil => exact scanBlock_close_zero _ _ hclose
  | cons s others ih =>
    rw [List.forall_mem_cons] at hothers
    have hopener : Keyword.ofLine? s.opener = some .otherwise := hothers.1.1 ▸ hothers.1.2.opener
    have hloop : s.keyword ≠ .loop := by simp [hothers.1.1]
    rw [segmentLines_cons, List.cons_append, scanBlock_otherwise_zero _ _ hopener,
      List.append_assoc, scanBlock_body hothers.1.2.closed (hothers.1.2.noSeparator hloop),
      ih hothers.2, Option.map_some, extentOf]

/-- A scan that finds the end has passed the rest of a section and the segments behind it. -/
theorem exists_segments {e : Extent} (h : scanBlock depth index lines = some e) :
    ∃ body others closer rest, lines = body ++ (segmentLines others ++ closer :: rest) ∧
      levelAfter depth body = some 0 ∧ NoSeparator depth body ∧ (∀ s ∈ others, s.IsElse) ∧
      Keyword.ofLine? closer = some .close := by
  have hnil : NoSeparator 0 [] := by
    intro before line after hlines
    simp at hlines
  induction lines generalizing depth index e with
  | nil => simp [scanBlock] at h
  | cons line lines ih =>
    cases hstep : levelStep depth line with
    | none =>
      obtain ⟨rfl, hline⟩ := levelStep_eq_none_iff.mp hstep
      exact ⟨[], [], line, lines, rfl, rfl, hnil, by simp, hline⟩
    | some middle =>
      by_cases hseparator : depth = 0 ∧ Keyword.ofLine? line = some .otherwise
      · obtain ⟨rfl, hline⟩ := hseparator
        rw [scanBlock_otherwise_zero _ _ hline, Option.map_eq_some_iff] at h
        obtain ⟨e, h, -⟩ := h
        obtain ⟨body, others, closer, rest, rfl, hbody, hno, hothers, hclose⟩ := ih h
        refine ⟨[], ⟨.otherwise, line, body⟩ :: others, closer, rest, by simp, rfl, hnil, ?_,
          hclose⟩
        rw [List.forall_mem_cons]
        exact ⟨⟨rfl, hline, hbody, fun _ => hno⟩, hothers⟩
      · have hline : depth = 0 → Keyword.ofLine? line ≠ some .otherwise :=
          fun hzero hline => hseparator ⟨hzero, hline⟩
        rw [scanBlock_pass hstep hline] at h
        obtain ⟨body, others, closer, rest, rfl, hbody, hno, hothers, hclose⟩ := ih h
        refine ⟨line :: body, others, closer, rest, rfl, ?_, hno.cons hstep hline, hothers, hclose⟩
        rw [levelAfter_cons, hstep, Option.bind_some, hbody]

end Scan

theorem Balanced.closed {lines : List String} (h : Balanced lines) :
    levelAfter 0 lines = some 0 := by
  have hend : Keyword.ofLine? "end" = some .close := by decide
  have hnone : scanBlock 0 0 lines = none := by simpa [scanBlock] using h 0 0 []
  obtain ⟨depth, hdepth⟩ := scanBlock_eq_none_iff.mp hnone
  cases depth with
  | zero => exact hdepth
  | succ depth =>
    -- One more `end` would not close the scanned block.
    have hlevel : levelAfter 0 (lines ++ ["end"]) = some depth := by
      rw [levelAfter_append, hdepth, Option.bind_some, levelAfter_cons, levelStep_close_succ hend,
        Option.bind_some, levelAfter_nil]
    have hopen : scanBlock 0 0 (lines ++ ["end"]) = none :=
      scanBlock_eq_none_iff.mpr ⟨depth, hlevel⟩
    rw [h, scanBlock_close_zero _ _ hend] at hopen
    contradiction

theorem StepLines.closed {entities : List Entity} {budget : Nat} {lines : List String} {step : Step}
    (h : StepLines entities budget lines step) : levelAfter 0 lines = some 0 := by
  simpa using (FlowLines.cons h .nil).balanced.closed

theorem exists_blockSegments {line : String} {rest : List String} {k : Keyword} {e : Extent}
    (hline : Keyword.ofLine? line = some k) (hk : k.opensBlock = true)
    (h : blockExtent? (line :: rest) = some e) : ∃ s others closer tail,
      line :: rest = segmentLines (s :: others) ++ closer :: tail ∧ s.keyword = k ∧
      BlockSegments (s :: others) ∧ Keyword.ofLine? closer = some .close := by
  obtain ⟨body, others, closer, tail, hrest, hbody, hno, hothers, hclose⟩ := exists_segments h
  obtain rfl : rest = body ++ (segmentLines others ++ closer :: tail) := hrest
  cases k with
  | alt =>
    exact ⟨⟨.alt, line, body⟩, others, closer, tail, by simp, rfl,
      .fork rfl ⟨hline, hbody, fun _ => hno⟩ hothers, hclose⟩
  | loop =>
    have hinside : levelAfter 0 (body ++ segmentLines others) = some 0 := by
      rw [levelAfter_closed_append hbody, closed_segmentLines hothers]
    exact ⟨⟨.loop, line, body ++ segmentLines others⟩, [], closer, tail, by simp, rfl,
      .loop rfl ⟨hline, hinside, fun h => absurd rfl h⟩, hclose⟩
  | actor | participant | otherwise | close => contradiction

/-- The boundaries of the segments cut the lines into the segments. -/
theorem sectionsFrom_boundaries {others : List Segment} (hothers : ∀ s ∈ others, s.IsElse)
    (start : Nat) (s : Segment) (pre tail : List String) :
    sectionsFrom start s.keyword (pre ++ (segmentLines (s :: others) ++ tail)) pre.length
        (extentOf (pre.length + 1 + s.body.length) others).boundaries =
      sectionsOf (start + pre.length) (s :: others) := by
  induction others generalizing s pre with
  | nil =>
    have hsection := sectionAt_append start s.keyword pre s.body tail s.opener
    simpa [sectionsFrom, sectionsOf, extentOf, Extent.boundaries, Segment.condition] using hsection
  | cons next others ih =>
    rw [List.forall_mem_cons] at hothers
    have hpre : pre ++ (segmentLines (s :: next :: others) ++ tail) =
        (pre ++ s.lines) ++ (segmentLines (next :: others) ++ tail) := by
      simp [Segment.lines]
    have hlength : pre.length + 1 + s.body.length = (pre ++ s.lines).length := by
      simp only [Segment.lines, List.length_append, List.length_cons]
      omega
    have hsection := sectionAt_append start s.keyword pre s.body
      (segmentLines (next :: others) ++ tail) s.opener
    have hlines : pre ++ s.opener :: (s.body ++ (segmentLines (next :: others) ++ tail)) =
        pre ++ (segmentLines (s :: next :: others) ++ tail) := by
      simp
    have hrest := ih hothers.2 next (pre ++ s.lines)
    rw [hothers.1.1] at hrest
    rw [hlines] at hsection
    rw [extentOf, Extent.boundaries_addSeparator, sectionsFrom, hsection, sectionsOf, hlength, hpre,
      hrest, ← hlength]
    simp only [Segment.condition, Nat.add_assoc]

end UseCaseFlow
