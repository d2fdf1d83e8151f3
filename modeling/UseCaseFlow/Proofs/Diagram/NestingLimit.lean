import UseCaseFlow.Proofs.Diagram.LineDefect
import UseCaseFlow.Proofs.Diagram.NestingDepth

/-!
# The nesting limit

The limit only matters for lines that nest deeper: then the reader stops at the first line that does,
unless another defect comes before it. Every limit that is not reached gives the same outcome.
-/

namespace UseCaseFlow

section Blocks

variable {entities : List Entity} {budget k : Nat}

theorem flowLines_singleton {lines : List String} {step : Step} :
    FlowLines entities budget lines [step] ↔ StepLines entities budget lines step := by
  simp [flowLines_cons_right]

theorem StepLines.nestedWithin_append {first rest : List String} {step : Step}
    (h : StepLines entities budget first step) : NestedWithin k (first ++ rest) ↔
      Step.depth step ≤ k ∧ NestedWithin k rest := by
  rw [nestedWithin_closed_append (excess_of_closed h.closed),
    (flowLines_singleton.mpr h).nestedWithin_iff, Flow.depth_cons_le]
  simp [Flow.depth]

theorem StepLines.depth_le {lines : List String} {step : Step}
    (h : StepLines entities budget lines step) : Step.depth step ≤ budget :=
  (Flow.depth_cons_le.mp (flowLines_singleton.mpr h).depth_le).1

theorem StepLines.of_depth_le {lines : List String} {step : Step}
    (h : StepLines entities budget lines step) (hk : Step.depth step ≤ k) :
    StepLines entities k lines step :=
  flowLines_singleton.mp ((flowLines_singleton.mpr h).of_depth_le k
    (Flow.depth_cons_le.mpr ⟨hk, Nat.zero_le _⟩))

theorem nestedWithin_elseSegments {depth : Int} {segments : List Segment} {rest : List String}
    (h : ∀ s ∈ segments, s.IsElse) : NestedWithin depth (segmentLines segments ++ rest) ↔
      (∀ s ∈ segments, NestedWithin depth s.body) ∧ NestedWithin depth rest := by
  induction segments with
  | nil => simp
  | cons s segments ih =>
    rw [List.forall_mem_cons] at h ⊢
    have hopener : Keyword.ofLine? s.opener = some .otherwise := h.1.1 ▸ h.1.2.opener
    rw [segmentLines_cons, List.cons_append, List.append_assoc,
      nestedWithin_cons_of_excess (excess_separator hopener),
      nestedWithin_closed_append (excess_of_closed h.1.2.closed), ih h.2, and_assoc]

theorem BlockSegments.nestedWithin_iff {depth : Int} {before others : List Segment} {s : Segment}
    {lines : List String} (h : BlockSegments (before ++ s :: others)) :
    NestedWithin (depth + 1) (segmentLines before ++ s.opener :: lines) ↔
      (∀ r ∈ before, NestedWithin depth r.body) ∧ NestedWithin depth lines := by
  have hfirst : ∀ first rest, before ++ s :: others = first :: rest →
      excess [first.opener] = 1 := by
    intro first rest hsegments
    rw [hsegments] at h
    cases h with
    | loop hkeyword h => exact excess_opener h.opener (by rw [hkeyword]; rfl)
    | fork hkeyword h hothers => exact excess_opener h.opener (by rw [hkeyword]; rfl)
  cases before with
  | nil =>
    rw [segmentLines_nil, List.nil_append, nestedWithin_opener_cons (hfirst s others rfl)]
    simp
  | cons first before =>
    have hclosed := excess_of_closed (h.delimited first List.mem_cons_self).closed
    have helse : ∀ o ∈ before ++ s :: others, o.IsElse := h.isElse
    rw [List.forall_mem_append, List.forall_mem_cons] at helse
    obtain ⟨hbefore, hs, -⟩ := helse
    have hopener : Keyword.ofLine? s.opener = some .otherwise := hs.1 ▸ hs.2.opener
    rw [segmentLines_cons, List.cons_append, nestedWithin_opener_cons (hfirst first _ rfl),
      List.append_assoc, nestedWithin_closed_append hclosed, nestedWithin_elseSegments hbefore,
      nestedWithin_cons_of_excess (excess_separator hopener), List.forall_mem_cons, and_assoc]

theorem Segment.Readable.nestedWithin {s : Segment} (h : s.Readable entities budget) :
    NestedWithin budget s.body := by
  obtain ⟨flow, -, hflow⟩ := h
  exact (hflow.nestedWithin_iff budget).mpr hflow.depth_le

theorem Segment.Readable.of_nestedWithin {s : Segment} (h : s.Readable entities budget)
    (hk : NestedWithin k s.body) : s.Readable entities k := by
  obtain ⟨flow, hne, hflow⟩ := h
  exact ⟨flow, hne, hflow.of_depth_le k ((hflow.nestedWithin_iff k).mp hk)⟩

variable {before others : List Segment} {s : Segment} {closer : String}

theorem ReadUpTo.nestedWithin_iff (h : ReadUpTo entities budget before s others closer)
    {lines : List String} :
    NestedWithin ((budget + 1 : Nat) : Int) (segmentLines before ++ s.opener :: lines) ↔
      NestedWithin budget lines := by
  rw [Int.natCast_succ, h.block.nestedWithin_iff]
  exact and_iff_right fun r hr => (h.readable r hr).nestedWithin

theorem ReadUpTo.of_nestedWithin (h : ReadUpTo entities budget before s others closer)
    {lines : List String} (hk : NestedWithin k (segmentLines before ++ s.opener :: lines)) :
    ∃ j, k = j + 1 ∧ ReadUpTo entities j before s others closer ∧ NestedWithin j lines := by
  rw [← Int.sub_add_cancel (k : Int) 1, h.block.nestedWithin_iff] at hk
  obtain ⟨j, rfl⟩ : ∃ j, k = j + 1 :=
    Nat.exists_eq_add_one.mpr (by have hnonneg := hk.2.nonneg; omega)
  rw [Int.natCast_succ, Int.add_sub_cancel] at hk
  exact ⟨j, rfl, ⟨h.block, h.close, fun r hr => (h.readable r hr).of_nestedWithin (hk.1 r hr),
    h.distinct⟩, hk.2⟩

end Blocks

section Defects

variable {entities : List Entity} {limit budget : Nat} {before after : List String} {line : String}
  {defect : Defect}

def Defect.IsTooDeep (defect : Defect) : Prop :=
  ∃ limit, defect = .nestingTooDeep limit

/-- What stands before the first defect nests within the budget, and so does the line itself unless
it opens one block too many. -/
theorem FirstDefect.nestedWithin
    (h : FirstDefect entities limit budget before line after defect) :
    NestedWithin budget before ∧ (¬ defect.IsTooDeep → NestedWithin budget (before ++ [line])) := by
  induction h with
  | message hplain h =>
    have hnonneg := Int.natCast_nonneg
    exact ⟨nestedWithin_nil.mpr (hnonneg _), fun _ =>
      nestedWithin_singleton.mpr ⟨hnonneg _, by rw [excess_plain hplain]; exact hnonneg _⟩⟩
  | unexpected hline h =>
    have hnonneg := Int.natCast_nonneg
    exact ⟨nestedWithin_nil.mpr (hnonneg _), fun _ =>
      nestedWithin_singleton.mpr ⟨hnonneg _, Int.le_trans (excess_le_zero hline h) (hnonneg _)⟩⟩
  | tooDeep hline h =>
    exact ⟨nestedWithin_nil.mpr (Int.le_refl 0), fun hshallow => absurd ⟨_, rfl⟩ hshallow⟩
  | @unterminated budget line after keyword depth hline h hopen =>
    refine ⟨nestedWithin_nil.mpr (by omega), fun _ => nestedWithin_singleton.mpr ?_⟩
    rw [excess_opener hline h]
    omega
  | duplicate hread h =>
    have hline := hread.nestedWithin_iff.mpr (nestedWithin_nil.mpr (Int.natCast_nonneg _))
    exact ⟨hline.initial (List.prefix_append _ _), fun _ => hline⟩
  | empty hread hfresh h =>
    have hline := hread.nestedWithin_iff.mpr (nestedWithin_nil.mpr (Int.natCast_nonneg _))
    exact ⟨hline.initial (List.prefix_append _ _), fun _ => hline⟩
  | inside hread hfresh hbody h ih =>
    rw [List.append_assoc, List.cons_append, hread.nestedWithin_iff, hread.nestedWithin_iff]
    exact ih
  | @later budget first before line after step defect hstep h ih =>
    rw [List.append_assoc, hstep.nestedWithin_append, hstep.nestedWithin_append]
    exact ⟨⟨hstep.depth_le, ih.1⟩, fun hshallow => ⟨hstep.depth_le, ih.2 hshallow⟩⟩

/-- With every budget that its lines allow a defect is the first one, unless it is that a block is
nested too deep. -/
theorem FirstDefect.of_nestedWithin
    (h : FirstDefect entities limit budget before line after defect)
    (hshallow : ¬ defect.IsTooDeep) {k : Nat} (hk : NestedWithin k (before ++ [line]))
    (limit' : Nat) : FirstDefect entities limit' k before line after defect := by
  induction h generalizing k with
  | message hplain h => exact .message hplain h
  | unexpected hline h => exact .unexpected hline h
  | tooDeep hline h => exact absurd ⟨_, rfl⟩ hshallow
  | unterminated hline h hopen =>
    rw [List.nil_append, nestedWithin_singleton, excess_opener hline h] at hk
    obtain ⟨j, rfl⟩ : ∃ j, k = j + 1 := Nat.exists_eq_add_one.mpr (by omega)
    exact .unterminated hline h hopen
  | duplicate hread h =>
    obtain ⟨j, rfl, hread, -⟩ := hread.of_nestedWithin hk
    exact .duplicate hread h
  | empty hread hfresh h =>
    obtain ⟨j, rfl, hread, -⟩ := hread.of_nestedWithin hk
    exact .empty hread hfresh h
  | inside hread hfresh hbody h ih =>
    rw [List.append_assoc, List.cons_append] at hk
    obtain ⟨j, rfl, hread, hj⟩ := hread.of_nestedWithin hk
    exact .inside hread hfresh hbody (ih hshallow hj)
  | later hstep h ih =>
    rw [List.append_assoc, hstep.nestedWithin_append] at hk
    exact .later (hstep.of_depth_le hk.1) (ih hshallow hk.2)

theorem IdDefect.not_isTooDeep {id : String} (h : IdDefect entities id defect) :
    ¬ defect.IsTooDeep := by
  rintro ⟨limit, rfl⟩
  cases h

theorem MessageDefect.not_isTooDeep (h : MessageDefect entities line defect) :
    ¬ defect.IsTooDeep := by
  rintro ⟨limit, rfl⟩
  cases h with
  | source hmessage h => exact h.not_isTooDeep ⟨limit, rfl⟩
  | target hmessage hsource h => exact h.not_isTooDeep ⟨limit, rfl⟩

end Defects

/-- The line behind `before` opens a block inside of so many open blocks. -/
structure OpensAtDepth (depth : Nat) (before : List String) (line : String) : Prop where
  opener : ∃ k, Keyword.ofLine? line = some k ∧ k.opensBlock = true
  enclosing : ∃ blocks, openBlocks before = some blocks ∧ blocks.length = depth

/-- Behind `before` comes the first of the lines that opens a block at the depth. -/
structure FirstAtDepth (depth : Nat) (lines before : List String) (line : String) : Prop where
  front : before ++ [line] <+: lines
  opens : OpensAtDepth depth before line
  first : ∀ earlier opener, earlier ++ [opener] <+: lines → OpensAtDepth depth earlier opener →
    before.length ≤ earlier.length

section Outcome

variable {entities : List Entity} {limit depth : Nat} {lines before after : List String}
  {line : String} {defect : Defect}

theorem OpensAtDepth.excess_eq (h : OpensAtDepth depth before line) :
    excess (before ++ [line]) = depth + 1 := by
  obtain ⟨k, hline, hk⟩ := h.opener
  obtain ⟨blocks, hblocks, rfl⟩ := h.enclosing
  have hbefore := excess_of_openBlocksFrom hblocks
  rw [excess_append, excess_opener hline hk, hbefore]
  simp

theorem OpensAtDepth.not_nestedWithin (h : OpensAtDepth depth before line) :
    ¬ NestedWithin depth (before ++ [line]) := by
  intro hnested
  have hle := hnested _ (List.prefix_refl _)
  rw [h.excess_eq] at hle
  omega

theorem FirstDefect.opensAtDepth
    (h : FirstDefect entities limit limit before line after defect) (hdeep : defect.IsTooDeep) :
    defect = .nestingTooDeep limit ∧ OpensAtDepth limit before line := by
  have henclosed : Enclosed [] (before ++ line :: after) [] [] :=
    ⟨rfl, fun _ => rfl, fun hne => absurd rfl hne, nofun⟩
  have hdefect := h.lineDefect henclosed (Nat.zero_add limit)
  rw [List.nil_append, List.append_nil] at hdefect
  obtain ⟨limit', rfl⟩ := hdeep
  cases hdefect with
  | nestingTooDeep hline hopens hblocks hlength =>
    exact ⟨rfl, ⟨_, hline, hopens⟩, ⟨_, hblocks, hlength⟩⟩
  | message hplain h => exact absurd ⟨limit', rfl⟩ h.not_isTooDeep

theorem FirstDefect.firstAtDepth
    (h : FirstDefect entities limit limit before line after defect) (hdeep : defect.IsTooDeep) :
    FirstAtDepth limit (before ++ line :: after) before line := by
  refine ⟨⟨after, by simp⟩, (h.opensAtDepth hdeep).2, fun earlier opener hfront hopens => ?_⟩
  by_contra hlt
  have hprefix : earlier ++ [opener] <+: before := by
    refine List.prefix_of_prefix_length_le hfront (List.prefix_append _ _) ?_
    rw [List.length_append, List.length_singleton]
    omega
  exact hopens.not_nestedWithin (h.nestedWithin.1.initial hprefix)

/-- An outcome is a flow, the error for no lines at all, or the first defect. -/
theorem parseSequence_outcome (entities : List Entity) (lines : List String) (limit : Nat) :
    (∃ flow, parseSequence entities lines limit = .ok flow) ∨ lines = [] ∨
      ∃ before line after defect, lines = before ++ line :: after ∧
        FirstDefect entities limit limit before line after defect := by
  cases h : parseSequence entities lines limit with
  | ok flow => exact Or.inl ⟨flow, rfl⟩
  | error e =>
    rcases parseSequence_eq_error_iff.mp h with ⟨hnil, -⟩ |
      ⟨before, line, after, defect, hlines, -, hfirst⟩
    · exact Or.inr (Or.inl hnil)
    · exact Or.inr (Or.inr ⟨before, line, after, defect, hlines, hfirst⟩)

theorem FirstDefect.parseSequence_eq_error
    (h : FirstDefect entities limit limit before line after defect) :
    parseSequence entities (before ++ line :: after) limit =
      .error (.onLine (before.length + 1) defect) :=
  parseSequence_eq_error_iff.mpr
    (Or.inr ⟨before, line, after, defect, rfl, by rw [Nat.zero_add], h⟩)

theorem parseSequence_nil (entities : List Entity) (limit : Nat) :
    parseSequence entities [] limit = .error .emptySequence :=
  parseSequence_eq_error_iff.mpr (Or.inl ⟨rfl, rfl⟩)

end Outcome

/-- The reader stops at the line with the number, as it opens a block that is nested too deep. -/
def StopsTooDeep (outcome : Except ParseError Flow) (number : Nat) : Prop :=
  ∃ limit, outcome = .error (.onLine number (.nestingTooDeep limit))

/-- What the nesting limit does to an outcome, told for a limit and one that is not smaller. -/
structure LimitOnlyCuts (entities : List Entity) (lines : List String) (limit wider : Nat) :
    Prop where
  /-- A limit that is not reached does not matter. -/
  same (h : ∀ number, ¬ StopsTooDeep (parseSequence entities lines limit) number) :
    parseSequence entities lines wider = parseSequence entities lines limit
  /-- A wider limit gets no less far. -/
  later (number : Nat) (h : StopsTooDeep (parseSequence entities lines limit) number) :
    (∃ flow, parseSequence entities lines wider = .ok flow) ∨ ∃ number' defect,
      number ≤ number' ∧ parseSequence entities lines wider = .error (.onLine number' defect)
  /-- Lines that can be read are so exactly within the depth of their flow. -/
  threshold (flow : Flow) (h : parseSequence entities lines limit = .ok flow) (k : Nat) :
    (parseSequence entities lines k = .ok flow ↔ Flow.depth flow ≤ k) ∧
    (k < Flow.depth flow → ∃ before line, FirstAtDepth k lines before line ∧
      parseSequence entities lines k =
        .error (.onLine (before.length + 1) (.nestingTooDeep k)))

section Limits

variable {entities : List Entity} {limit wider k : Nat} {lines before after : List String}
  {line : String} {defect : Defect}

theorem parseSequence_eq_ok_of_depth_le {flow : Flow}
    (h : parseSequence entities lines limit = .ok flow) (hk : Flow.depth flow ≤ k) :
    parseSequence entities lines k = .ok flow := by
  obtain ⟨hne, hflow⟩ := flowLines_of_parseSequence h
  exact parseSequence_of_flowLines hne (hflow.of_depth_le k hk)

theorem FirstDefect.parseSequence_of_nestedWithin
    (h : FirstDefect entities limit limit before line after defect)
    (hshallow : ¬ defect.IsTooDeep) (hk : NestedWithin k (before ++ [line])) :
    parseSequence entities (before ++ line :: after) k =
      .error (.onLine (before.length + 1) defect) :=
  (h.of_nestedWithin hshallow hk k).parseSequence_eq_error

/-- With a wider limit the first defect does not come earlier. -/
theorem FirstDefect.length_le_of_wider
    (h : FirstDefect entities limit limit before line after defect) (hle : limit ≤ wider)
    {before' after' : List String} {line' : String} {defect' : Defect}
    (h' : FirstDefect entities wider wider before' line' after' defect')
    (hlines : before ++ line :: after = before' ++ line' :: after') :
    before.length ≤ before'.length := by
  by_contra hlt
  have hfront : before' ++ [line'] <+: before ++ line :: after := ⟨after', by simp [hlines]⟩
  have hprefix : before' ++ [line'] <+: before := by
    refine List.prefix_of_prefix_length_le hfront (List.prefix_append _ _) ?_
    rw [List.length_append, List.length_singleton]
    omega
  have hnested := h.nestedWithin.1.initial hprefix
  by_cases hdeep' : defect'.IsTooDeep
  · have hwider := hnested.mono (Int.ofNat_le.mpr hle)
    exact (h'.opensAtDepth hdeep').2.not_nestedWithin hwider
  · have herror := h'.parseSequence_of_nestedWithin hdeep' hnested
    rw [← hlines, h.parseSequence_eq_error] at herror
    simp only [Except.error.injEq, ParseError.onLine.injEq] at herror
    omega

theorem exists_firstAtDepth {flow : Flow} (h : parseSequence entities lines limit = .ok flow)
    (hk : k < Flow.depth flow) : ∃ before line, FirstAtDepth k lines before line ∧
      parseSequence entities lines k = .error (.onLine (before.length + 1) (.nestingTooDeep k)) := by
  obtain ⟨hne, hflow⟩ := flowLines_of_parseSequence h
  rcases parseSequence_outcome entities lines k with ⟨flow', hok⟩ | rfl |
    ⟨before, line, after, defect, rfl, hfirst⟩
  · obtain ⟨-, hflow'⟩ := flowLines_of_parseSequence hok
    have hdepth := (hflow.nestedWithin_iff k).mp
      ((hflow'.nestedWithin_iff k).mpr hflow'.depth_le)
    omega
  · rw [parseSequence_nil] at h
    contradiction
  · have hdeep : defect.IsTooDeep := by
      by_contra hshallow
      -- Such a defect would be reported with every wider limit, also one that reads the lines.
      have hwide := (hfirst.nestedWithin.2 hshallow).mono
        (Int.ofNat_le.mpr (Nat.le_of_lt hk))
      have herror := hfirst.parseSequence_of_nestedWithin hshallow hwide
      rw [parseSequence_eq_ok_of_depth_le h (Nat.le_refl _)] at herror
      contradiction
    obtain ⟨rfl, -⟩ := hfirst.opensAtDepth hdeep
    exact ⟨before, line, hfirst.firstAtDepth hdeep, hfirst.parseSequence_eq_error⟩

end Limits

/-- The limit only cuts, and it does so where the lines get too deep. -/
theorem limitOnlyCuts (entities : List Entity) (lines : List String) {limit wider : Nat}
    (hle : limit ≤ wider) : LimitOnlyCuts entities lines limit wider where
  same h := by
    rcases parseSequence_outcome entities lines limit with ⟨flow, hok⟩ | rfl |
      ⟨before, line, after, defect, rfl, hfirst⟩
    · obtain ⟨-, hflow⟩ := flowLines_of_parseSequence hok
      rw [hok, parseSequence_eq_ok_of_depth_le hok (Nat.le_trans hflow.depth_le hle)]
    · rw [parseSequence_nil, parseSequence_nil]
    · have hshallow : ¬ defect.IsTooDeep := by
        rintro ⟨limit', rfl⟩
        exact h _ ⟨limit', hfirst.parseSequence_eq_error⟩
      have hwider := (hfirst.nestedWithin.2 hshallow).mono (Int.ofNat_le.mpr hle)
      rw [hfirst.parseSequence_eq_error, hfirst.parseSequence_of_nestedWithin hshallow hwider]
  later number h := by
    obtain ⟨limit', herror⟩ := h
    rcases parseSequence_eq_error_iff.mp herror with ⟨-, hempty⟩ |
      ⟨before, line, after, defect, rfl, hnumber, hfirst⟩
    · contradiction
    · simp only [ParseError.onLine.injEq] at hnumber
      obtain ⟨rfl, rfl⟩ := hnumber
      rcases parseSequence_outcome entities (before ++ line :: after) wider with hok | hnil |
        ⟨before', line', after', defect', hlines, hfirst'⟩
      · exact Or.inl hok
      · simp at hnil
      · have hlength := hfirst.length_le_of_wider hle hfirst' hlines
        rw [hlines]
        exact Or.inr ⟨_, defect', by omega, hfirst'.parseSequence_eq_error⟩
  threshold flow h k := by
    refine ⟨⟨fun hok => ?_, parseSequence_eq_ok_of_depth_le h⟩, exists_firstAtDepth h⟩
    exact (flowLines_of_parseSequence hok).2.depth_le

/-- Two loops, one inside the other, within one block and within two. -/
theorem limitOnlyCuts_nested_loops :
    (1 ≤ 2 ∧ LimitOnlyCuts [⟨"a", "A", .actor, true⟩]
      ["loop x", "loop y", "a ->> a : m", "end", "end"] 1 2) ∧
    StopsTooDeep (parseSequence [⟨"a", "A", .actor, true⟩]
      ["loop x", "loop y", "a ->> a : m", "end", "end"] 1) 2 :=
  ⟨⟨by decide, limitOnlyCuts _ _ (by decide)⟩, 1, rfl⟩

end UseCaseFlow
