import UseCaseFlow.Diagram.Keyword

/-!
# Nesting of lines

How many blocks are open after some lines, and which ones, told from the keywords of the lines
alone.
-/

namespace UseCaseFlow

/-- How many blocks are open after the line, of `depth` before it. An `end` needs one to close. -/
def levelStep (depth : Nat) (line : String) : Option Nat :=
  match Keyword.ofLine? line, depth with
  | some .close, 0 => none
  | some .close, depth + 1 => some depth
  | some .alt, depth | some .loop, depth => some (depth + 1)
  | _, depth => some depth

def levelAfter (depth : Nat) (lines : List String) : Option Nat :=
  lines.foldlM levelStep depth

structure OpenBlock where
  line : Nat
  keyword : Keyword
  deriving DecidableEq, Repr

def blocksStep (number : Nat) (line : String) (enclosing : List OpenBlock) :
    Option (List OpenBlock) :=
  match Keyword.ofLine? line, enclosing with
  | some .close, [] => none
  | some .close, _ :: outer => some outer
  | some .alt, enclosing => some (⟨number, .alt⟩ :: enclosing)
  | some .loop, enclosing => some (⟨number, .loop⟩ :: enclosing)
  | _, enclosing => some enclosing

/-- The blocks that are open after the lines, with `start` lines and `enclosing` blocks before. -/
def openBlocksFrom (start : Nat) (enclosing : List OpenBlock) :
    List String → Option (List OpenBlock)
  | [] => some enclosing
  | line :: rest =>
    (blocksStep (start + 1) line enclosing).bind fun blocks =>
      openBlocksFrom (start + 1) blocks rest

/-- The blocks that are open after the lines, the innermost first; none if an `end` among the lines
closes nothing. -/
def openBlocks (lines : List String) : Option (List OpenBlock) :=
  openBlocksFrom 0 [] lines

section LevelStep

variable {depth : Nat} {line : String} {k : Keyword}

attribute [local simp] levelStep

theorem levelStep_opener (h : Keyword.ofLine? line = some k) (hk : k.opensBlock = true) :
    levelStep depth line = some (depth + 1) := by
  cases k <;> simp_all [Keyword.opensBlock]

theorem levelStep_plain (h : Keyword.ofLine? line = none) : levelStep depth line = some depth := by
  simp [h]

theorem levelStep_separator (h : Keyword.ofLine? line = some .otherwise) :
    levelStep depth line = some depth := by
  simp [h]

theorem levelStep_close_zero (h : Keyword.ofLine? line = some .close) :
    levelStep 0 line = none := by
  simp [h]

theorem levelStep_close_succ (h : Keyword.ofLine? line = some .close) :
    levelStep (depth + 1) line = some depth := by
  simp [h]

end LevelStep

section Level

variable {depth : Nat} {line : String}

theorem levelStep_eq_none_iff :
    levelStep depth line = none ↔ depth = 0 ∧ Keyword.ofLine? line = some .close := by
  cases hline : Keyword.ofLine? line with
  | none => simp [levelStep_plain hline]
  | some k => cases k <;> cases depth <;> simp [levelStep, hline]

theorem levelStep_add {depth' : Nat} (h : levelStep depth line = some depth') (outer : Nat) :
    levelStep (depth + outer) line = some (depth' + outer) := by
  cases hline : Keyword.ofLine? line with
  | none =>
    rw [levelStep_plain hline] at h ⊢
    simp_all
  | some k =>
    cases k with
    | close =>
      cases depth with
      | zero => simp [levelStep_close_zero hline] at h
      | succ depth =>
        rw [levelStep_close_succ hline] at h
        rw [Nat.succ_add, levelStep_close_succ hline, Option.some.inj h]
    | alt | loop =>
      rw [levelStep_opener hline rfl] at h ⊢
      simp only [Option.some.injEq] at h ⊢
      omega
    | actor | participant | otherwise => simp_all [levelStep]

@[simp] theorem levelAfter_nil : levelAfter depth [] = some depth := rfl

@[simp] theorem levelAfter_cons (rest : List String) :
    levelAfter depth (line :: rest) = (levelStep depth line).bind (levelAfter · rest) := rfl

theorem levelAfter_append (left right : List String) :
    levelAfter depth (left ++ right) = (levelAfter depth left).bind (levelAfter · right) := by
  simp [levelAfter, List.foldlM_append]

theorem levelAfter_add {lines : List String} {depth' : Nat}
    (h : levelAfter depth lines = some depth') (outer : Nat) :
    levelAfter (depth + outer) lines = some (depth' + outer) := by
  induction lines generalizing depth with
  | nil => simpa using h
  | cons line rest ih =>
    rw [levelAfter_cons, Option.bind_eq_some_iff] at h
    obtain ⟨middle, hstep, hrest⟩ := h
    rw [levelAfter_cons, levelStep_add hstep, Option.bind_some, ih hrest]

theorem levelAfter_congr {left right : List String}
    (h : left.map Keyword.ofLine? = right.map Keyword.ofLine?) :
    levelAfter depth left = levelAfter depth right := by
  induction left generalizing right depth with
  | nil =>
    obtain rfl := List.map_eq_nil_iff.mp h.symm
    rfl
  | cons line rest ih =>
    cases right with
    | nil => simp at h
    | cons line' rest' =>
      obtain ⟨hline, hrest⟩ := List.cons.inj h
      have hstep : levelStep depth line = levelStep depth line' := by
        simp only [levelStep, hline]
      rw [levelAfter_cons, levelAfter_cons, hstep]
      congr 1
      funext middle
      exact ih hrest

/-- Lines that lead back to the level they start on do so on every level. -/
theorem levelAfter_of_closed {lines : List String} (h : levelAfter 0 lines = some 0) :
    levelAfter depth lines = some depth := by
  simpa using levelAfter_add h depth

theorem levelAfter_closed_append {lines : List String} (h : levelAfter 0 lines = some 0)
    (rest : List String) : levelAfter depth (lines ++ rest) = levelAfter depth rest := by
  rw [levelAfter_append, levelAfter_of_closed h, Option.bind_some]

end Level

section Blocks

variable {line : String} (start : Nat)

theorem openBlocksFrom_append (enclosing : List OpenBlock) (left right : List String) :
    openBlocksFrom start enclosing (left ++ right) = (openBlocksFrom start enclosing left).bind
      fun blocks => openBlocksFrom (start + left.length) blocks right := by
  induction left generalizing start enclosing with
  | nil => rfl
  | cons line rest ih =>
    rw [List.cons_append, openBlocksFrom, openBlocksFrom, Option.bind_assoc]
    congr 1
    funext blocks
    rw [ih, List.length_cons, Nat.add_assoc, Nat.add_comm 1]

theorem openBlocks_append (left right : List String) : openBlocks (left ++ right) =
    (openBlocks left).bind fun blocks => openBlocksFrom left.length blocks right := by
  rw [openBlocks, openBlocksFrom_append, Nat.zero_add]
  rfl

private theorem exists_blocksStep {inner : List OpenBlock} {depth : Nat}
    (h : levelStep inner.length line = some depth) (number : Nat) : ∃ inner' : List OpenBlock,
      inner'.length = depth ∧
        ∀ outer, blocksStep number line (inner ++ outer) = some (inner' ++ outer) := by
  cases hline : Keyword.ofLine? line with
  | none =>
    rw [levelStep_plain hline] at h
    exact ⟨inner, Option.some.inj h, fun outer => by simp [blocksStep, hline]⟩
  | some k =>
    cases k with
    | close =>
      cases inner with
      | nil => simp [levelStep_close_zero hline] at h
      | cons b inner =>
        rw [List.length_cons, levelStep_close_succ hline] at h
        exact ⟨inner, Option.some.inj h, fun outer => by simp [blocksStep, hline]⟩
    | alt =>
      rw [levelStep_opener hline rfl] at h
      exact ⟨⟨number, .alt⟩ :: inner, Option.some.inj h, fun outer => by simp [blocksStep, hline]⟩
    | loop =>
      rw [levelStep_opener hline rfl] at h
      exact ⟨⟨number, .loop⟩ :: inner, Option.some.inj h, fun outer => by simp [blocksStep, hline]⟩
    | actor | participant | otherwise =>
      have hsame : inner.length = depth := by simpa [levelStep, hline] using h
      exact ⟨inner, hsame, fun outer => by simp [blocksStep, hline]⟩

theorem exists_openBlocksFrom {lines : List String} {inner : List OpenBlock} {depth : Nat}
    (h : levelAfter inner.length lines = some depth) : ∃ inner' : List OpenBlock,
      inner'.length = depth ∧
        ∀ outer, openBlocksFrom start (inner ++ outer) lines = some (inner' ++ outer) := by
  induction lines generalizing start inner with
  | nil => exact ⟨inner, Option.some.inj h, fun outer => rfl⟩
  | cons line rest ih =>
    rw [levelAfter_cons, Option.bind_eq_some_iff] at h
    obtain ⟨middle, hstep, hrest⟩ := h
    obtain ⟨blocks, rfl, hblocks⟩ := exists_blocksStep hstep (start + 1)
    obtain ⟨inner', hlength, hinner⟩ := ih (start + 1) hrest
    refine ⟨inner', hlength, fun outer => ?_⟩
    rw [openBlocksFrom, hblocks, Option.bind_some, hinner]

theorem openBlocksFrom_of_closed {lines : List String} (h : levelAfter 0 lines = some 0)
    (enclosing : List OpenBlock) : openBlocksFrom start enclosing lines = some enclosing := by
  obtain ⟨inner, hlength, hinner⟩ : ∃ inner : List OpenBlock, inner.length = 0 ∧ ∀ outer,
      openBlocksFrom start ([] ++ outer) lines = some (inner ++ outer) :=
    exists_openBlocksFrom start h
  obtain rfl := List.length_eq_zero_iff.mp hlength
  exact hinner enclosing

theorem openBlocks_append_closed {lines : List String} (h : levelAfter 0 lines = some 0)
    (before : List String) : openBlocks (before ++ lines) = openBlocks before := by
  rw [openBlocks_append]
  simp [openBlocksFrom_of_closed _ h]

theorem openBlocks_append_opener {before lines : List String} {enclosing : List OpenBlock}
    {k : Keyword} (hbefore : openBlocks before = some enclosing)
    (hline : Keyword.ofLine? line = some k) (hk : k.opensBlock = true)
    (hlines : levelAfter 0 lines = some 0) :
    openBlocks (before ++ line :: lines) = some (⟨before.length + 1, k⟩ :: enclosing) := by
  have hstep : blocksStep (before.length + 1) line enclosing =
      some (⟨before.length + 1, k⟩ :: enclosing) := by
    cases k <;> simp_all [blocksStep, Keyword.opensBlock]
  rw [openBlocks_append, hbefore, Option.bind_some, openBlocksFrom, hstep, Option.bind_some,
    openBlocksFrom_of_closed _ hlines]

end Blocks

end UseCaseFlow
