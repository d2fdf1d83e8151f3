import UseCaseFlow.Proofs.Diagram.FirstDefect

/-!
# What a reported error says about its line

Every defect that the reader reports is one of the reported line, told from the blocks that are open
before it and the lines around it, with no mention of how the reader came there.
-/

namespace UseCaseFlow

/-- The block is the innermost one that is open after the lines. -/
def Innermost (lines : List String) (b : OpenBlock) : Prop :=
  ∃ outer, openBlocks lines = some (b :: outer)

/-- The line behind `before` opens the block, or it is an `else` of that block. -/
inductive OpensSection (b : OpenBlock) (before : List String) (line : String) : Keyword → Prop
  | first {keyword : Keyword} (hline : Keyword.ofLine? line = some keyword)
      (h : keyword.opensBlock = true) (hblock : b = ⟨before.length + 1, keyword⟩) :
      OpensSection b before line keyword
  | next (hline : Keyword.ofLine? line = some .otherwise) (hblock : b.keyword = .alt)
      (hinner : Innermost before b) : OpensSection b before line .otherwise

/-- The line behind `before` is the `end` of the block or, in a fork, an `else` of it. -/
structure EndsSection (b : OpenBlock) (before : List String) (line : String) : Prop where
  inner : Innermost before b
  keyword : Keyword.ofLine? line = some .close ∨
    b.keyword = .alt ∧ Keyword.ofLine? line = some .otherwise

/-- The line between `before` and `after` has the defect. -/
inductive LineDefect (entities : List Entity) (limit : Nat) (before : List String) (line : String)
    (after : List String) : Defect → Prop
  | unexpectedKeyword {keyword : Keyword} {blocks : List OpenBlock}
      (hline : Keyword.ofLine? line = some keyword) (h : keyword.opensBlock = false)
      (hblocks : openBlocks before = some blocks) (hclose : keyword = .close → blocks = [])
      (hseparator : keyword = .otherwise → ∀ b ∈ blocks.head?, b.keyword = .loop) :
      LineDefect entities limit before line after (.unexpectedKeyword keyword)
  | unterminatedBlock {keyword : Keyword} (hline : Keyword.ofLine? line = some keyword)
      (h : keyword.opensBlock = true) (hblocks : openBlocks before = some [])
      (hopen : ∀ later, later <+: after → ∃ inner,
        openBlocks (before ++ line :: later) = some (inner ++ [⟨before.length + 1, keyword⟩])) :
      LineDefect entities limit before line after (.unterminatedBlock keyword)
  | emptyBlock {keyword : Keyword} {b : OpenBlock} {next : String} {rest : List String}
      (hopens : OpensSection b before line keyword) (hafter : after = next :: rest)
      (hends : EndsSection b (before ++ [line]) next) :
      LineDefect entities limit before line after (.emptyBlock keyword)
  | duplicateBranch {b : OpenBlock} {earlier between : List String} {opener : String}
      {keyword : Keyword} (hopens : OpensSection b before line .otherwise)
      (hbefore : before = earlier ++ opener :: between)
      (hearlier : OpensSection b earlier opener keyword)
      (hcondition : keyword.restOf opener = Keyword.otherwise.restOf line) :
      LineDefect entities limit before line after
        (.duplicateBranch (Keyword.otherwise.restOf line))
  | nestingTooDeep {keyword : Keyword} {blocks : List OpenBlock}
      (hline : Keyword.ofLine? line = some keyword) (h : keyword.opensBlock = true)
      (hblocks : openBlocks before = some blocks) (hlength : blocks.length = limit) :
      LineDefect entities limit before line after (.nestingTooDeep limit)
  | message {defect : Defect} (hplain : Keyword.ofLine? line = none)
      (h : MessageDefect entities line defect) :
      LineDefect entities limit before line after defect

section Segments

def Segment.blockKeyword (s : Segment) : Keyword :=
  if s.keyword = .loop then .loop else .alt

variable {before others : List Segment} {s : Segment}

theorem BlockSegments.blockKeyword_eq_alt (h : BlockSegments (before ++ s :: others))
    (hne : others ≠ []) : s.blockKeyword = .alt := by
  rw [Segment.blockKeyword, if_neg]
  cases before with
  | nil => simp [h.alt_of_ne_nil hne]
  | cons first before =>
    have helse : s.IsElse := h.isElse s (List.mem_append_right _ List.mem_cons_self)
    simp [helse.1]

theorem BlockSegments.opensSection (h : BlockSegments (before ++ s :: others)) {pre : List String}
    {blocks : List OpenBlock} (hpre : openBlocks pre = some blocks) :
    OpensSection ⟨pre.length + 1, s.blockKeyword⟩ (pre ++ segmentLines before) s.opener s.keyword ∧
      openBlocks (pre ++ (segmentLines before ++ [s.opener])) =
        some (⟨pre.length + 1, s.blockKeyword⟩ :: blocks) := by
  have hopener := (h.delimited s (by simp)).opener
  cases before with
  | nil =>
    obtain ⟨hkeyword, hopens⟩ : s.blockKeyword = s.keyword ∧ s.keyword.opensBlock = true := by
      cases h with
      | loop hkeyword h => simp [Segment.blockKeyword, hkeyword, Keyword.opensBlock]
      | fork hkeyword h hothers => simp [Segment.blockKeyword, hkeyword, Keyword.opensBlock]
    rw [hkeyword, segmentLines_nil, List.append_nil, List.nil_append]
    exact ⟨.first hopener hopens rfl, openBlocks_append_opener hpre hopener hopens rfl⟩
  | cons first before =>
    rw [List.cons_append] at h
    have helse := h.isElse
    rw [List.forall_mem_append, List.forall_mem_cons] at helse
    obtain ⟨hbefore, hself, -⟩ := helse
    have hdelimited := h.delimited first List.mem_cons_self
    have hfirst : Keyword.ofLine? first.opener = some .alt := by
      rw [← h.alt_of_ne_nil (by simp)]
      exact hdelimited.opener
    have hblock : s.blockKeyword = .alt := by simp [Segment.blockKeyword, hself.1]
    have hclosed : levelAfter 0 (first.body ++ segmentLines before) = some 0 := by
      rw [levelAfter_closed_append hdelimited.closed, closed_segmentLines hbefore]
    have hinside : levelAfter 0 (first.body ++ segmentLines before ++ [s.opener]) = some 0 := by
      rw [levelAfter_closed_append hclosed, levelAfter_cons,
        levelStep_separator (hself.1 ▸ hopener), Option.bind_some, levelAfter_nil]
    rw [hblock, hself.1]
    refine ⟨.next (hself.1 ▸ hopener) rfl ⟨blocks, ?_⟩, ?_⟩
    · exact openBlocks_append_opener hpre hfirst rfl hclosed
    · simpa using openBlocks_append_opener hpre hfirst rfl hinside

end Segments

/-- The lines stand between `pre` and `post`, inside the blocks. Within blocks they are closed, and
within a fork they hold no `else` of it. -/
structure Enclosed (pre lines post : List String) (blocks : List OpenBlock) : Prop where
  enclosing : openBlocks pre = some blocks
  outermost : blocks = [] → post = []
  closed : blocks ≠ [] → levelAfter 0 lines = some 0
  noSeparator : ∀ b ∈ blocks.head?, b.keyword ≠ .loop → NoSeparator 0 lines

section Enclosed

variable {pre post : List String} {blocks : List OpenBlock}

theorem Enclosed.drop {first rest : List String} (h : Enclosed pre (first ++ rest) post blocks)
    (hfirst : levelAfter 0 first = some 0) : Enclosed (pre ++ first) rest post blocks := by
  refine ⟨?_, h.outermost, fun hne => ?_, fun b hb hloop => ?_⟩
  · rw [openBlocks_append_closed hfirst, h.enclosing]
  · rw [← levelAfter_closed_append hfirst]
    exact h.closed hne
  · intro before line after hrest hlevel
    apply h.noSeparator b hb hloop (first ++ before) line after
    · rw [hrest, List.append_assoc]
    · rw [levelAfter_closed_append hfirst, hlevel]

theorem Enclosed.body {before others : List Segment} {s : Segment} {closer : String}
    {rest : List String}
    (h : Enclosed pre (segmentLines (before ++ s :: others) ++ closer :: rest) post blocks)
    (hblock : BlockSegments (before ++ s :: others)) :
    Enclosed (pre ++ (segmentLines before ++ [s.opener])) s.body
      (segmentLines others ++ closer :: rest ++ post)
      (⟨pre.length + 1, s.blockKeyword⟩ :: blocks) := by
  have hdelimited := hblock.delimited s (by simp)
  refine ⟨(hblock.opensSection h.enclosing).2, nofun, fun _ => hdelimited.closed, ?_⟩
  intro b hb hloop
  obtain rfl := Option.some.inj hb
  apply hdelimited.noSeparator
  intro hkeyword
  exact hloop (if_pos hkeyword)

theorem LineDefect.of_unexpected {entities : List Entity} {limit : Nat} {line : String}
    {after : List String} (h : Enclosed pre (line :: after) post blocks) {keyword : Keyword}
    (hline : Keyword.ofLine? line = some keyword) (hopens : keyword.opensBlock = false) :
    LineDefect entities limit pre line (after ++ post) (.unexpectedKeyword keyword) := by
  refine .unexpectedKeyword hline hopens h.enclosing ?_ ?_
  · rintro rfl
    cases blocks with
    | nil => rfl
    | cons b outer =>
      have hclosed := h.closed (List.cons_ne_nil _ _)
      simp [levelStep_close_zero hline] at hclosed
  · rintro rfl b hb
    by_cases hloop : b.keyword = .loop
    · exact hloop
    · exact absurd hline (h.noSeparator b hb hloop [] line after rfl rfl)

theorem LineDefect.of_unterminated {entities : List Entity} {limit : Nat} {line : String}
    {after : List String} (h : Enclosed pre (line :: after) post blocks) {keyword : Keyword}
    {depth : Nat} (hline : Keyword.ofLine? line = some keyword) (hopens : keyword.opensBlock = true)
    (hopen : levelAfter 0 after = some depth) :
    LineDefect entities limit pre line (after ++ post) (.unterminatedBlock keyword) := by
  obtain rfl : blocks = [] := by
    cases blocks with
    | nil => rfl
    | cons b outer =>
      have hclosed := h.closed (List.cons_ne_nil _ _)
      rw [levelAfter_cons, levelStep_opener hline hopens, Option.bind_some,
        levelAfter_add hopen] at hclosed
      simp at hclosed
  refine .unterminatedBlock hline hopens h.enclosing fun later hlater => ?_
  rw [h.outermost rfl, List.append_nil] at hlater
  obtain ⟨rest, rfl⟩ := hlater
  rw [levelAfter_append, Option.bind_eq_some_iff] at hopen
  obtain ⟨middle, hlater, -⟩ := hopen
  have hstart : openBlocks (pre ++ [line]) = some [⟨pre.length + 1, keyword⟩] :=
    openBlocks_append_opener h.enclosing hline hopens rfl
  obtain ⟨inner, -, hinner⟩ : ∃ inner : List OpenBlock, inner.length = middle ∧ ∀ outer,
      openBlocksFrom (pre ++ [line]).length ([] ++ outer) later = some (inner ++ outer) :=
    exists_openBlocksFrom _ hlater
  refine ⟨inner, ?_⟩
  rw [← List.singleton_append, ← List.append_assoc, openBlocks_append, hstart, Option.bind_some]
  exact hinner _

theorem LineDefect.of_empty {entities : List Entity} {limit : Nat} {before others : List Segment}
    {s : Segment} {closer : String} (hblock : BlockSegments (before ++ s :: others))
    (hclose : Keyword.ofLine? closer = some .close) (hpre : openBlocks pre = some blocks)
    (tail : List String) :
    LineDefect entities limit (pre ++ segmentLines before) s.opener
      (segmentLines others ++ closer :: tail) (.emptyBlock s.keyword) := by
  obtain ⟨hopens, hinside⟩ := hblock.opensSection hpre
  rw [← List.append_assoc] at hinside
  cases others with
  | nil => exact .emptyBlock hopens rfl ⟨⟨blocks, hinside⟩, Or.inl hclose⟩
  | cons next others =>
    have hnext : next.IsElse := hblock.isElse_after next List.mem_cons_self
    have halt := hblock.blockKeyword_eq_alt (List.cons_ne_nil _ _)
    have hopener : Keyword.ofLine? next.opener = some .otherwise := hnext.1 ▸ hnext.2.opener
    exact .emptyBlock hopens rfl ⟨⟨blocks, hinside⟩, Or.inr ⟨halt, hopener⟩⟩

theorem LineDefect.of_duplicate {entities : List Entity} {limit : Nat}
    {before others : List Segment} {s : Segment} (hblock : BlockSegments (before ++ s :: others))
    (hmem : s.condition ∈ before.map (·.condition)) (hpre : openBlocks pre = some blocks)
    (after : List String) :
    LineDefect entities limit (pre ++ segmentLines before) s.opener after
      (.duplicateBranch s.condition) := by
  obtain ⟨r, hr, hcondition⟩ := List.mem_map.mp hmem
  obtain ⟨earlier, between, rfl⟩ := List.append_of_mem hr
  have hopens := (hblock.opensSection hpre).1
  have hblock' : BlockSegments (earlier ++ r :: (between ++ s :: others)) := by simpa using hblock
  have hearlier := (hblock'.opensSection hpre).1
  have hs : s.keyword = .otherwise :=
    (hblock'.isElse_after s (List.mem_append_right _ List.mem_cons_self)).1
  have hr : r.blockKeyword = .alt := hblock'.blockKeyword_eq_alt (by simp)
  have halt : s.blockKeyword = .alt := by simp [Segment.blockKeyword, hs]
  have hline : s.condition = Keyword.otherwise.restOf s.opener := by rw [Segment.condition, hs]
  have hbefore : pre ++ segmentLines (earlier ++ r :: between) =
      pre ++ segmentLines earlier ++ r.opener :: (r.body ++ segmentLines between) := by
    simp
  rw [hs, halt] at hopens
  rw [hr] at hearlier
  rw [hline]
  exact .duplicateBranch hopens hbefore hearlier (hcondition.trans hline)

end Enclosed

/-- The first defect of enclosed lines is a defect of its line in the whole text. -/
theorem FirstDefect.lineDefect {entities : List Entity} {limit budget : Nat}
    {before : List String} {line : String} {after : List String} {defect : Defect}
    (h : FirstDefect entities limit budget before line after defect) {pre post : List String}
    {blocks : List OpenBlock} (henclosed : Enclosed pre (before ++ line :: after) post blocks)
    (hlimit : blocks.length + budget = limit) :
    LineDefect entities limit (pre ++ before) line (after ++ post) defect := by
  induction h generalizing pre post blocks with
  | message hplain h => exact .message hplain h
  | unexpected hline h =>
    rw [List.append_nil]
    exact .of_unexpected henclosed hline h
  | tooDeep hline h =>
    rw [List.append_nil]
    exact .nestingTooDeep hline h henclosed.enclosing hlimit
  | unterminated hline h hopen =>
    rw [List.append_nil]
    exact .of_unterminated henclosed hline h hopen
  | duplicate hread h => exact .of_duplicate hread.block h henclosed.enclosing _
  | @empty budget before others s closer rest hread hfresh h =>
    rw [List.append_assoc, List.cons_append]
    exact .of_empty hread.block hread.close henclosed.enclosing _
  | @inside budget before others s closer rest front back line defect hread hfresh hbody h ih =>
    have hlines : segmentLines before ++ s.opener :: front ++
        line :: (back ++ (segmentLines others ++ closer :: rest)) =
        segmentLines (before ++ s :: others) ++ closer :: rest := by
      simp [hbody]
    rw [hlines] at henclosed
    have hinside := henclosed.body hread.block
    rw [hbody] at hinside
    have hdefect := ih hinside (by rw [List.length_cons]; omega)
    simpa using hdefect
  | @later budget first before line after step defect hstep h ih =>
    rw [List.append_assoc] at henclosed
    rw [← List.append_assoc]
    exact ih (henclosed.drop hstep.closed) hlimit

/-- An error that is reported for a sequence of lines is that the sequence is empty, or it names
one of the lines and a defect which that line has. -/
theorem lineDefect_of_parseSequence {entities : List Entity} {lines : List String} {limit : Nat}
    {e : ParseError} (h : parseSequence entities lines limit = .error e) :
    lines = [] ∧ e = .emptySequence ∨ ∃ before line after defect,
      lines = before ++ line :: after ∧ e = .onLine (before.length + 1) defect ∧
        LineDefect entities limit before line after defect := by
  rcases parseSequence_eq_error_iff.mp h with hempty |
    ⟨before, line, after, defect, rfl, rfl, hfirst⟩
  · exact Or.inl hempty
  · have henclosed : Enclosed [] (before ++ line :: after) [] [] :=
      ⟨rfl, fun _ => rfl, fun hne => absurd rfl hne, nofun⟩
    have hdefect := hfirst.lineDefect henclosed (Nat.zero_add limit)
    rw [List.nil_append, List.append_nil] at hdefect
    exact Or.inr ⟨before, line, after, defect, rfl, by rw [Nat.zero_add], hdefect⟩

/-- An `else` that repeats the condition of its `alt`, in a fork inside of a loop. -/
theorem lineDefect_of_repeated_condition :
    parseSequence [⟨"a", "A", .actor, true⟩]
        ["loop l", "alt x", "a ->> a : m", "else x", "end", "end"] =
      .error (.onLine 4 (.duplicateBranch "x")) ∧
    LineDefect [⟨"a", "A", .actor, true⟩] defaultNestingLimit ["loop l", "alt x", "a ->> a : m"]
      "else x" ["end", "end"] (.duplicateBranch "x") := by
  have herror : parseSequence [⟨"a", "A", .actor, true⟩]
      (["loop l", "alt x", "a ->> a : m"] ++ ["else x", "end", "end"]) =
      .error (.onLine 4 (.duplicateBranch "x")) := rfl
  refine ⟨herror, ?_⟩
  rcases lineDefect_of_parseSequence herror with ⟨hempty, -⟩ |
    ⟨before, line, after, defect, hlines, hnumber, hdefect⟩
  · contradiction
  · simp only [ParseError.onLine.injEq] at hnumber
    obtain ⟨hnumber, rfl⟩ := hnumber
    have hlength : 3 = before.length := by omega
    obtain ⟨rfl, hrest⟩ := List.append_inj hlines hlength
    obtain ⟨rfl, rfl⟩ := List.cons.inj hrest
    exact hdefect

end UseCaseFlow
