import UseCaseFlow.Diagram.Sequence
import UseCaseFlow.Proofs.Diagram.Grammar

/-!
# The sequence reader follows the grammar

Lines are read as a flow exactly if the grammar derives that flow from them. The reader delimits a
block before it reads the inside, so each side of the equivalence ties the scan to a derivation. The
reader goes from step to step (`readStep`), and every step takes a line at least.
-/

namespace UseCaseFlow

private theorem drop_take_cons (lines : List String) {line : String} {i stop : Nat}
    (hline : lines[i]? = some line) (hstop : i < stop) :
    (lines.take stop).drop i = line :: (lines.take stop).drop (i + 1) := by
  have htake : (lines.take stop)[i]? = some line := by
    simpa [List.getElem?_take, hstop] using hline
  obtain ⟨hi, hget⟩ := List.getElem?_eq_some_iff.mp htake
  rw [List.drop_eq_getElem_cons hi, hget]

private theorem drop_take_append {lines : List String} {i middle stop : Nat} (hi : i ≤ middle)
    (hmiddle : middle ≤ stop) (hstop : stop ≤ lines.length) :
    (lines.take stop).drop i = (lines.take middle).drop i ++ (lines.take stop).drop middle := by
  have htake : lines.take middle = (lines.take stop).take middle := by
    rw [List.take_take, Nat.min_eq_left hmiddle]
  have hlength : ((lines.take stop).take middle).length = middle := by
    simp only [List.length_take]
    omega
  have hsplit := congrArg (List.drop i) (List.take_append_drop middle (lines.take stop))
  rw [List.drop_append_of_le_length (by omega)] at hsplit
  rw [htake, hsplit]

theorem parseSection_eq_ok_iff {inner : LinesReader} {s : Section} {body : Flow} :
    parseSection inner s = .ok body ↔ inner (s.start + 1) s.body = .ok body ∧ body ≠ [] := by
  simp only [parseSection, bind_eq_ok_iff]
  constructor
  · rintro ⟨steps, hsteps, h⟩
    cases steps with
    | nil => contradiction
    | cons step steps =>
      obtain rfl := Except.ok.inj h
      exact ⟨hsteps, List.cons_ne_nil _ _⟩
  · rintro ⟨hbody, hne⟩
    refine ⟨body, hbody, ?_⟩
    cases body with
    | nil => contradiction
    | cons step steps => rfl

theorem parseBranches_cons_eq_ok_iff {inner : LinesReader} {taken : List String} {s : Section}
    {rest : List Section} {branches : List (Branch Step)} :
    parseBranches inner taken (s :: rest) = .ok branches ↔ ∃ body tail,
      branches = ⟨s.condition, body⟩ :: tail ∧ s.condition ∉ taken ∧
      parseSection inner s = .ok body ∧
      parseBranches inner (s.condition :: taken) rest = .ok tail := by
  rw [parseBranches]
  by_cases h : s.condition ∈ taken
  · simp only [h, if_true, not_true_eq_false, false_and, and_false, exists_false, iff_false]
    exact fun h => nomatch h
  · simp only [h, if_false, not_false_eq_true, true_and, bind_eq_ok_iff, pure_eq_ok_iff]
    constructor
    · rintro ⟨body, hbody, tail, htail, rfl⟩
      exact ⟨body, tail, rfl, hbody, htail⟩
    · rintro ⟨body, tail, rfl, hbody, htail⟩
      exact ⟨body, hbody, tail, htail, rfl⟩

section Blocks

variable {entities : List Entity} {budget : Nat} {inner : LinesReader}

/-- The reader accepts the flows of that budget, whatever stands before the lines. -/
def LinesReader.Follows (inner : LinesReader) (entities : List Entity) (budget : Nat) : Prop :=
  ∀ start lines flow, inner start lines = .ok flow ↔ FlowLines entities budget lines flow

/-- The sections that the boundaries cut off, read one by one, are the lines up to the last one. -/
private theorem branchLines_of_parseBranches (hinner : inner.Follows entities budget)
    {lines : List String} {start : Nat} {keyword : Keyword} {line : String} {opener close : Nat}
    {separators : List Nat} {taken : List String} {branches : List (Branch Step)}
    (hline : lines[opener]? = some line) (hopen : Keyword.ofLine? line = some keyword)
    (hascending : (opener :: (separators ++ [close])).Pairwise (· < ·))
    (hclose : close < lines.length)
    (hseparators : ∀ b ∈ separators, (lines[b]?).bind Keyword.ofLine? = some .otherwise)
    (h : parseBranches inner taken
      (sectionsFrom start keyword lines opener (separators ++ [close])) = .ok branches) :
    BranchLines entities budget keyword ((lines.take close).drop opener) branches ∧
      branches ≠ [] ∧ (branches.map (·.condition)).Nodup ∧
      ∀ b ∈ branches, b.condition ∉ taken := by
  induction separators generalizing keyword line opener taken branches with
  | nil =>
    obtain ⟨body, tail, rfl, hfresh, hbody, htail⟩ := parseBranches_cons_eq_ok_iff.mp h
    obtain rfl : [] = tail := Except.ok.inj htail
    obtain ⟨hread, hne⟩ := parseSection_eq_ok_iff.mp hbody
    have hlt : opener < close := by simpa using hascending
    have hcondition : (sectionAt start keyword lines opener close).condition =
        keyword.restOf line := by
      simp [sectionAt, List.getD_eq_getElem?_getD, hline]
    rw [drop_take_cons lines hline hlt]
    refine ⟨?_, by simp, by simp, by simpa using hfresh⟩
    rw [branchLines_cons_right]
    exact ⟨line, _, [], (List.append_nil _).symm, hopen, hcondition,
      (hinner _ _ _).mp hread, hne, .nil⟩
  | cons next separators ih =>
    obtain ⟨body, tail, rfl, hfresh, hbody, htail⟩ := parseBranches_cons_eq_ok_iff.mp h
    obtain ⟨hread, hne⟩ := parseSection_eq_ok_iff.mp hbody
    obtain ⟨hbefore, hafter⟩ := List.pairwise_cons.mp hascending
    have hlt : opener < next := hbefore next (by simp)
    have hnext : next < close := (List.pairwise_cons.mp hafter).1 close (by simp)
    have hcondition : (sectionAt start keyword lines opener next).condition =
        keyword.restOf line := by
      simp [sectionAt, List.getD_eq_getElem?_getD, hline]
    obtain ⟨line', hline', hopen'⟩ := Option.bind_eq_some_iff.mp (hseparators next (by simp))
    obtain ⟨hlines, -, hnodup, hdisjoint⟩ := ih hline' hopen' hafter
      (fun b hb => hseparators b (List.mem_cons_of_mem _ hb)) htail
    refine ⟨?_, by simp, ?_, ?_⟩
    · rw [drop_take_cons lines hline (by omega),
        drop_take_append (by omega : opener + 1 ≤ next) (by omega) (by omega),
        branchLines_cons_right]
      exact ⟨line, _, _, rfl, hopen, hcondition, (hinner _ _ _).mp hread, hne, hlines⟩
    · rw [List.map_cons, List.nodup_cons]
      refine ⟨fun hmem => ?_, hnodup⟩
      obtain ⟨b, hb, heq⟩ := List.mem_map.mp hmem
      exact hdisjoint b hb (heq ▸ List.mem_cons_self)
    · intro b hb
      rcases List.mem_cons.mp hb with rfl | hb
      · exact hfresh
      · exact fun hmem => hdisjoint b hb (List.mem_cons_of_mem _ hmem)

/-- A scan over derived sections returns the boundaries at which they are cut off again. -/
private theorem parseBranches_of_branchLines (hinner : inner.Follows entities budget) (start : Nat)
    {keyword : Keyword} {lines pre sections rest : List String} {closer : String}
    {taken : List String} {branches : List (Branch Step)}
    (hlines : lines = pre ++ (sections ++ closer :: rest))
    (hclose : Keyword.ofLine? closer = some .close)
    (h : BranchLines entities budget keyword sections branches) (hne : branches ≠ [])
    (hnodup : (branches.map (·.condition)).Nodup)
    (hdisjoint : ∀ b ∈ branches, b.condition ∉ taken) :
    ∃ separators,
      scanBlock 0 (pre.length + 1) (sections.tail ++ closer :: rest) =
        some ⟨separators, pre.length + sections.length⟩ ∧
      parseBranches inner taken (sectionsFrom start keyword lines pre.length
        (separators ++ [pre.length + sections.length])) = .ok branches := by
  induction branches generalizing keyword pre sections taken with
  | nil => contradiction
  | cons b branches ih =>
    obtain ⟨opener, inside, others, rfl, hopen, hcondition, hbody, hbne, hothers⟩ :=
      branchLines_cons_right.mp h
    obtain ⟨hunused, hnodup'⟩ := List.nodup_cons.mp hnodup
    have hsection : sectionAt start keyword lines pre.length (pre.length + 1 + inside.length) =
        ⟨start + pre.length, keyword, b.condition, inside⟩ := by
      rw [hlines, hcondition, List.cons_append, List.cons_append, List.append_assoc,
        sectionAt_append]
    have hread : parseSection inner ⟨start + pre.length, keyword, b.condition, inside⟩ =
        .ok b.steps := parseSection_eq_ok_iff.mpr ⟨(hinner _ _ _).mpr hbody, hbne⟩
    cases branches with
    | nil =>
      obtain rfl := branchLines_nil_right.mp hothers
      have hend : pre.length + (opener :: inside ++ []).length = pre.length + 1 + inside.length := by
        simp only [List.append_nil, List.length_cons]
        omega
      refine ⟨[], ?_, ?_⟩
      · rw [hend, List.append_nil, List.tail_cons, hbody.balanced, scanBlock_close_zero _ _ hclose]
      · rw [hend, List.nil_append, sectionsFrom, hsection, parseBranches_cons_eq_ok_iff]
        exact ⟨b.steps, [], rfl, hdisjoint b List.mem_cons_self, hread, rfl⟩
    | cons b' branches =>
      have hpre : (pre ++ opener :: inside).length = pre.length + 1 + inside.length := by
        simp only [List.length_append, List.length_cons]
        omega
      have hend : pre.length + (opener :: inside ++ others).length =
          (pre ++ opener :: inside).length + others.length := by
        simp only [List.length_append]
        omega
      have hlines' : lines = (pre ++ opener :: inside) ++ (others ++ closer :: rest) := by
        simp [hlines]
      have hdisjoint' : ∀ c ∈ b' :: branches, c.condition ∉ b.condition :: taken := by
        intro c hc
        rw [List.mem_cons, not_or]
        exact ⟨fun heq => hunused (List.mem_map.mpr ⟨c, hc, heq⟩),
          hdisjoint c (List.mem_cons_of_mem _ hc)⟩
      obtain ⟨separators, hscan, hbranches⟩ :=
        ih hlines' hothers (List.cons_ne_nil _ _) hnodup' hdisjoint'
      obtain ⟨opener', inside', others', rfl, hopen', -⟩ := branchLines_cons_right.mp hothers
      rw [hpre] at hscan hbranches
      refine ⟨(pre.length + 1 + inside.length) :: separators, ?_, ?_⟩
      · rw [hend, hpre, List.cons_append, List.tail_cons, List.append_assoc, hbody.balanced,
          List.cons_append, List.cons_append, scanBlock_otherwise_zero _ _ hopen']
        rw [List.cons_append, List.tail_cons] at hscan
        rw [hscan]
        rfl
      · rw [hend, hpre, List.cons_append, sectionsFrom, hsection, parseBranches_cons_eq_ok_iff]
        exact ⟨b.steps, _, rfl, hdisjoint b List.mem_cons_self, hread, hbranches⟩

/-- The reader accepts the steps of that budget that open with a keyword, and says how many lines
they take. -/
def BlockReader.Follows (block : BlockReader) (entities : List Entity) (budget : Nat) : Prop :=
  ∀ keyword start line rest step length, Keyword.ofLine? line = some keyword →
    (block keyword start (line :: rest) = .ok (step, length) ↔
      length ≤ (line :: rest).length ∧
        StepLines entities budget ((line :: rest).take length) step)

private theorem take_close {lines : List String} {line : String} {e : Extent}
    (h : e.Marks 0 (line :: lines)) (hclose : 0 < e.close) : ∃ closer,
      Keyword.ofLine? closer = some .close ∧
      (line :: lines).take (e.close + 1) =
        line :: ((line :: lines).take e.close).drop 1 ++ [closer] := by
  obtain ⟨closer, hget, hkeyword⟩ := Option.bind_eq_some_iff.mp h.close
  rw [Nat.sub_zero] at hget
  have htake := drop_take_cons (line :: lines) List.getElem?_cons_zero hclose
  rw [List.drop_zero, Nat.zero_add] at htake
  exact ⟨closer, hkeyword, by rw [List.take_add_one, hget, ← htake]; rfl⟩

private theorem stepLines_of_parseLoop (hinner : inner.Follows entities budget) {start : Nat}
    {line : String} {rest : List String} {step : Step} {length : Nat}
    (hline : Keyword.ofLine? line = some .loop)
    (h : parseLoop inner start (line :: rest) = .ok (step, length)) :
    length ≤ (line :: rest).length ∧
      StepLines entities (budget + 1) ((line :: rest).take length) step := by
  simp only [parseLoop, bind_eq_ok_iff, mapError_eq_ok_iff, blockEnd_eq_ok_iff,
    pure_eq_ok_iff, Prod.mk.injEq] at h
  obtain ⟨_, ⟨e, hextent, rfl⟩, body, hbody, rfl, rfl⟩ := h
  obtain ⟨hread, hne⟩ := parseSection_eq_ok_iff.mp hbody
  obtain ⟨hmarks, hascending⟩ := marks_of_blockExtent? hextent
  have hmem : e.close ∈ e.boundaries := List.mem_append_right _ (List.mem_singleton_self _)
  have hwithin := hmarks.within e.close hmem
  have hpos := (List.pairwise_cons.mp hascending).1 e.close hmem
  obtain ⟨closer, hcloser, htake⟩ := take_close hmarks hpos
  refine ⟨by omega, ?_⟩
  rw [htake]
  exact .loop hline ((hinner _ _ _).mp hread) hne hcloser

private theorem stepLines_of_parseFork (hinner : inner.Follows entities budget) {start : Nat}
    {line : String} {rest : List String} {step : Step} {length : Nat}
    (hline : Keyword.ofLine? line = some .alt)
    (h : parseFork inner start (line :: rest) = .ok (step, length)) :
    length ≤ (line :: rest).length ∧
      StepLines entities (budget + 1) ((line :: rest).take length) step := by
  simp only [parseFork, bind_eq_ok_iff, mapError_eq_ok_iff, branchBoundaries_eq_ok_iff,
    pure_eq_ok_iff, Prod.mk.injEq] at h
  obtain ⟨_, ⟨e, hextent, rfl⟩, branches, hbranches, rfl, rfl⟩ := h
  obtain ⟨hmarks, hascending⟩ := marks_of_blockExtent? hextent
  have hmem : e.close ∈ e.boundaries := List.mem_append_right _ (List.mem_singleton_self _)
  have hwithin := hmarks.within e.close hmem
  have hpos := (List.pairwise_cons.mp hascending).1 e.close hmem
  obtain ⟨closer, hcloser, htake⟩ := take_close hmarks hpos
  obtain ⟨hsections, hne, hdistinct, -⟩ := branchLines_of_parseBranches hinner
    List.getElem?_cons_zero hline hascending (by omega)
    (fun b hb => by simpa using hmarks.separator b hb) hbranches
  have hlast : e.boundaries.getLastD 0 = e.close := by
    rw [List.getLastD_eq_getLast?, e.getLast?_boundaries, Option.getD_some]
  have hcons := drop_take_cons (line :: rest) List.getElem?_cons_zero hpos
  rw [hlast, htake]
  refine ⟨by omega, ?_⟩
  rw [Nat.zero_add] at hcons
  rw [← hcons]
  exact .fork hsections hne hdistinct hcloser

private theorem parseLoop_of_flowLines (hinner : inner.Follows entities budget) (start : Nat)
    {opener closer : String} {inside : List String} {body : Flow} (tail : List String)
    (hbody : FlowLines entities budget inside body) (hne : body ≠ [])
    (hclose : Keyword.ofLine? closer = some .close) :
    parseLoop inner start (opener :: inside ++ closer :: tail) =
      .ok (.loop (Keyword.loop.restOf opener) body, inside.length + 1 + 1) := by
  have hextent : blockExtent? (opener :: inside ++ closer :: tail) =
      some ⟨[], 1 + inside.length⟩ := by
    rw [blockExtent?, List.cons_append, List.tail_cons, hbody.balanced,
      scanBlock_close_zero _ _ hclose]
  have hsection : sectionAt start .loop (opener :: inside ++ closer :: tail) 0
      (1 + inside.length) = ⟨start, .loop, Keyword.loop.restOf opener, inside⟩ := by
    simpa using sectionAt_append start .loop [] inside (closer :: tail) opener
  have hread : parseSection inner ⟨start, .loop, Keyword.loop.restOf opener, inside⟩ = .ok body :=
    parseSection_eq_ok_iff.mpr ⟨(hinner _ _ _).mpr hbody, hne⟩
  simp only [parseLoop, bind_eq_ok_iff, mapError_eq_ok_iff, blockEnd_eq_ok_iff, pure_eq_ok_iff]
  refine ⟨1 + inside.length, ⟨_, hextent, rfl⟩, body, ?_, ?_⟩
  · rw [hsection]
    exact hread
  · rw [hsection, Nat.add_comm 1]

private theorem parseFork_of_branchLines (hinner : inner.Follows entities budget) (start : Nat)
    {closer : String} {sections : List String} {branches : List (Branch Step)}
    (tail : List String) (h : BranchLines entities budget .alt sections branches)
    (hne : branches ≠ []) (hdistinct : (branches.map (·.condition)).Nodup)
    (hclose : Keyword.ofLine? closer = some .close) :
    parseFork inner start (sections ++ closer :: tail) =
      .ok (.fork branches, sections.length + 1) := by
  obtain ⟨separators, hscan, hbranches⟩ := parseBranches_of_branchLines hinner start
    (List.nil_append (sections ++ closer :: tail)).symm hclose h hne hdistinct
    (fun b _ => List.not_mem_nil)
  have htail : (sections ++ closer :: tail).tail = sections.tail ++ closer :: tail := by
    cases branches with
    | nil => contradiction
    | cons b branches =>
      obtain ⟨opener, inside, others, rfl, -⟩ := branchLines_cons_right.mp h
      rfl
  simp only [List.length_nil, Nat.zero_add] at hscan hbranches
  simp only [parseFork, bind_eq_ok_iff, mapError_eq_ok_iff, branchBoundaries_eq_ok_iff,
    pure_eq_ok_iff]
  refine ⟨_, ⟨⟨separators, sections.length⟩, ?_, rfl⟩, branches, hbranches, ?_⟩
  · rw [blockExtent?, htail, hscan]
  · simp [Extent.boundaries, List.getLastD_eq_getLast?]

theorem parseBlock_follows (hinner : inner.Follows entities budget) :
    BlockReader.Follows (parseBlock inner) entities (budget + 1) := by
  intro keyword start line rest step length hline
  constructor
  · intro h
    cases keyword with
    | loop => exact stepLines_of_parseLoop hinner hline h
    | alt => exact stepLines_of_parseFork hinner hline h
    | actor | participant | otherwise | close => contradiction
  · rintro ⟨hlength, h⟩
    have hsplit := List.take_append_drop length (line :: rest)
    have hlen : ((line :: rest).take length).length = length := List.length_take_of_le hlength
    generalize (line :: rest).take length = block at *
    generalize (line :: rest).drop length = tail at *
    rw [← hsplit]
    cases h with
    | interaction hplain hread =>
      obtain ⟨rfl, -⟩ := List.cons.inj hsplit
      simp [hline] at hplain
    | loop hopen hbody hne hclose =>
      obtain ⟨rfl, -⟩ := List.cons.inj hsplit
      obtain rfl : Keyword.loop = keyword := Option.some.inj (hopen.symm.trans hline)
      rw [List.append_assoc, List.singleton_append, ← hlen]
      simpa [parseBlock] using parseLoop_of_flowLines hinner start tail hbody hne hclose
    | fork hsections hne hdistinct hclose =>
      have halt : keyword = .alt := by
        cases hsections with
        | nil => contradiction
        | cons hopen hbody hne' hrest =>
          obtain ⟨rfl, -⟩ := List.cons.inj hsplit
          exact Option.some.inj (hline.symm.trans hopen)
      rw [halt, List.append_assoc, List.singleton_append, ← hlen]
      simpa [parseBlock] using parseFork_of_branchLines hinner start tail hsections hne hdistinct hclose

theorem refuseBlock_follows (limit : Nat) :
    BlockReader.Follows (refuseBlock limit) entities 0 := by
  intro keyword start line rest step length hline
  constructor
  · intro h
    rw [refuseBlock] at h
    split at h <;> contradiction
  · rintro ⟨-, h⟩
    have hsplit := List.take_append_drop length (line :: rest)
    generalize (line :: rest).take length = block at *
    cases h with
    | interaction hplain hread =>
      obtain ⟨rfl, -⟩ := List.cons.inj hsplit
      simp [hline] at hplain

/-- Lines to skip are the lines that the block before has read. -/
theorem parseLines_skip (index : IdIndex) (block : BlockReader) (skip start : Nat)
    (lines : List String) : parseLines index block skip start lines =
      parseLines index block 0 (start + skip) (lines.drop skip) := by
  induction lines generalizing skip start with
  | nil => simp [parseLines]
  | cons line rest ih =>
    cases skip with
    | zero => rfl
    | succ skip =>
      rw [parseLines, ih, List.drop_succ_cons]
      congr 1
      omega

/-- Reads the step that begins on the line, which follows `start` others. Also returns the index of
the line behind the step. -/
def readStep (index : IdIndex) (block : BlockReader) (start : Nat) (line : String)
    (rest : List String) : Except ParseError (Step × Nat) :=
  match Keyword.ofLine? line with
  | none => do
    let message ← parseInteraction index (start + 1) line
    return (.interaction message, start + 1)
  | some keyword => do
    let (step, length) ← block keyword start (line :: rest)
    return (step, start + length)

/-- Lines are read step by step, if no step ends where it begins. -/
theorem parseLines_cons {index : IdIndex} {block : BlockReader} {start : Nat} {line : String}
    {rest : List String}
    (hadvances : ∀ step next, readStep index block start line rest = .ok (step, next) →
      start < next) :
    parseLines index block 0 start (line :: rest) = do
      let (step, next) ← readStep index block start line rest
      let steps ← parseLines index block 0 next ((line :: rest).drop (next - start))
      return step :: steps := by
  rw [parseLines]
  cases hline : Keyword.ofLine? line with
  | none =>
    simp only [readStep, hline]
    cases parseInteraction index (start + 1) line with
    | error e => rfl
    | ok message => simp
  | some keyword =>
    simp only [readStep, hline] at hadvances ⊢
    cases hblock : block keyword start (line :: rest) with
    | error e => rfl
    | ok found =>
      obtain ⟨step, length⟩ := found
      have hlt : start < start + length := by
        apply hadvances step
        rw [hblock]
        rfl
      obtain ⟨length, rfl⟩ : ∃ n, length = n + 1 := Nat.exists_eq_add_one.mpr (by omega)
      simp [parseLines_skip _ _ length, Nat.add_assoc, Nat.add_comm 1 length]

section Rounds

variable {block : BlockReader} {start next : Nat} {line : String} {rest : List String} {step : Step}

theorem BlockReader.Follows.readStep_eq_ok_iff (h : block.Follows entities budget) :
    readStep (IdIndex.ofEntities entities) block start line rest = .ok (step, next) ↔
      ∃ length, next = start + length ∧ length ≤ (line :: rest).length ∧
        StepLines entities budget ((line :: rest).take length) step := by
  rw [readStep]
  cases hline : Keyword.ofLine? line with
  | none =>
    simp only [bind_eq_ok_iff, pure_eq_ok_iff, parseInteraction_eq_ok_iff, Prod.mk.injEq]
    constructor
    · rintro ⟨message, hread, rfl, rfl⟩
      exact ⟨1, rfl, by simp, .interaction hline hread⟩
    · rintro ⟨length, rfl, hlength, hstep⟩
      cases length with
      | zero => exact absurd hstep.length_pos (Nat.lt_irrefl 0)
      | succ length =>
        obtain ⟨htake, message, rfl, hread⟩ := (stepLines_plain hline).mp hstep
        have hlen := List.length_take_of_le (Nat.le_of_succ_le_succ hlength)
        rw [htake] at hlen
        exact ⟨message, hread, rfl, by rw [← hlen]; rfl⟩
  | some keyword =>
    simp only [bind_eq_ok_iff, pure_eq_ok_iff, Prod.exists, Prod.mk.injEq,
      h keyword start line rest _ _ hline]
    constructor
    · rintro ⟨_, length, ⟨hlength, hstep⟩, rfl, rfl⟩
      exact ⟨length, rfl, hlength, hstep⟩
    · rintro ⟨length, rfl, hlength, hstep⟩
      exact ⟨step, length, ⟨hlength, hstep⟩, rfl, rfl⟩

theorem BlockReader.Follows.readStep_of_stepLines (h : block.Follows entities budget)
    {inside : List String} (hstep : StepLines entities budget (line :: inside) step) :
    readStep (IdIndex.ofEntities entities) block start line (inside ++ rest) =
      .ok (step, start + (line :: inside).length) := by
  rw [h.readStep_eq_ok_iff]
  refine ⟨_, rfl, by simp, ?_⟩
  simpa using hstep

theorem BlockReader.Follows.readStep_advances (h : block.Follows entities budget)
    (hread : readStep (IdIndex.ofEntities entities) block start line rest = .ok (step, next)) :
    start < next ∧ next ≤ start + (line :: rest).length := by
  obtain ⟨length, rfl, hlength, hstep⟩ := h.readStep_eq_ok_iff.mp hread
  have hpos := hstep.length_pos
  rw [List.length_take_of_le hlength] at hpos
  omega

theorem BlockReader.Follows.parseLines_cons (h : block.Follows entities budget) (start : Nat)
    (line : String) (rest : List String) :
    parseLines (IdIndex.ofEntities entities) block 0 start (line :: rest) = do
      let (step, next) ← readStep (IdIndex.ofEntities entities) block start line rest
      let steps ← parseLines (IdIndex.ofEntities entities) block 0 next
        ((line :: rest).drop (next - start))
      return step :: steps :=
  UseCaseFlow.parseLines_cons fun _ _ hread => (h.readStep_advances hread).1

theorem BlockReader.Follows.length_drop_lt (h : block.Follows entities budget)
    (hread : readStep (IdIndex.ofEntities entities) block start line rest = .ok (step, next)) :
    ((line :: rest).drop (next - start)).length < (line :: rest).length := by
  have hadvances := h.readStep_advances hread
  rw [List.length_drop]
  omega

end Rounds

theorem parseLines_follows {block : BlockReader} (hblock : block.Follows entities budget) :
    LinesReader.Follows (parseLines (IdIndex.ofEntities entities) block 0) entities budget := by
  intro start lines
  -- A block is read in one step however long it is, so the induction is on the number of lines.
  induction hsize : lines.length using Nat.strongRecOn generalizing start lines with
  | ind size ih =>
    intro flow
    cases lines with
    | nil => rw [flowLines_nil_left, parseLines, pure_eq_ok_iff, eq_comm]
    | cons line rest =>
      simp only [hblock.parseLines_cons, bind_eq_ok_iff, Prod.exists, pure_eq_ok_iff,
        flowLines_cons_left]
      constructor
      · rintro ⟨step, next, hread, steps, hsteps, rfl⟩
        have hlt := hblock.length_drop_lt hread
        rw [ih _ (hsize ▸ hlt) _ _ rfl] at hsteps
        obtain ⟨length, rfl, hlength, hstep⟩ := hblock.readStep_eq_ok_iff.mp hread
        rw [Nat.add_sub_cancel_left] at hsteps
        exact ⟨length, step, steps, rfl, hlength, hstep, hsteps⟩
      · rintro ⟨length, step, steps, rfl, hlength, hstep, hsteps⟩
        have hread : readStep (IdIndex.ofEntities entities) block start line rest =
            .ok (step, start + length) :=
          hblock.readStep_eq_ok_iff.mpr ⟨length, rfl, hlength, hstep⟩
        have hlt := hblock.length_drop_lt hread
        refine ⟨step, start + length, hread, steps, ?_, rfl⟩
        rw [ih _ (hsize ▸ hlt) _ _ rfl, Nat.add_sub_cancel_left]
        exact hsteps

/-- Within every budget the reader accepts exactly the flows that the grammar derives. -/
theorem parseSteps_follows (entities : List Entity) (limit budget : Nat) :
    LinesReader.Follows (parseSteps (IdIndex.ofEntities entities) limit budget) entities
      budget := by
  induction budget with
  | zero => exact parseLines_follows (refuseBlock_follows limit)
  | succ budget ih => exact parseLines_follows (parseBlock_follows ih)

end Blocks

theorem flowLines_of_parseSequence {entities : List Entity} {lines : List String} {limit : Nat}
    {flow : Flow} (h : parseSequence entities lines limit = .ok flow) :
    flow ≠ [] ∧ FlowLines entities limit lines flow := by
  obtain ⟨steps, hsteps, h⟩ := bind_eq_ok_iff.mp h
  cases steps with
  | nil => contradiction
  | cons step steps =>
    obtain rfl := Except.ok.inj h
    exact ⟨List.cons_ne_nil _ _, (parseSteps_follows _ _ _ _ _ _).mp hsteps⟩

theorem parseSequence_of_flowLines {entities : List Entity} {lines : List String} {limit : Nat}
    {flow : Flow} (hne : flow ≠ []) (h : FlowLines entities limit lines flow) :
    parseSequence entities lines limit = .ok flow := by
  refine bind_eq_ok_iff.mpr ⟨flow, (parseSteps_follows _ _ _ _ _ _).mpr h, ?_⟩
  cases flow with
  | nil => contradiction
  | cons step steps => rfl

/-- A sequence of lines is accepted exactly if it is one or more steps of the grammar, with blocks
nested as deep as the limit allows, and the flow that is returned is the one that these lines
derive. -/
theorem parseSequence_eq_ok_iff (entities : List Entity) (lines : List String) (limit : Nat)
    (flow : Flow) :
    parseSequence entities lines limit = .ok flow ↔
      flow ≠ [] ∧ FlowLines entities limit lines flow :=
  ⟨flowLines_of_parseSequence, fun h => parseSequence_of_flowLines h.1 h.2⟩

end UseCaseFlow
