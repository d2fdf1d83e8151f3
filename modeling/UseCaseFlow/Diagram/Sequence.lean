import UseCaseFlow.Diagram.Block
import UseCaseFlow.Diagram.Message
/-!
# Step sequences

Reads the lines after the declarations into a flow. A block is delimited first and its sections are
read as sequences of their own, so the first malformed line of the document is the one reported.
Blocks may be nested only as deep as the limit says.
-/
namespace UseCaseFlow

/-- How deep blocks are nested at most, unless the caller says otherwise. -/
def defaultNestingLimit : Nat := 32

/-- Reads a run of lines that follow `start` lines of the whole sequence. -/
abbrev LinesReader := (start : Nat) → (lines : List String) → Except ParseError Flow

/-- Reads the block that the first line opens. Also returns the number of its lines. -/
abbrev BlockReader :=
  (keyword : Keyword) → (start : Nat) → (lines : List String) → Except ParseError (Step × Nat)

def parseSection (inner : LinesReader) (s : Section) : Except ParseError Flow := do
  let steps ← inner (s.start + 1) s.body
  if steps.isEmpty then throw (.onLine (s.start + 1) (.emptyBlock s.keyword))
  return steps

/-- Reads the sections of a fork, of which earlier ones had the conditions in `taken`. -/
def parseBranches (inner : LinesReader) (taken : List String) :
    List Section → Except ParseError (List (Branch Step))
  | [] => return []
  | s :: rest => do
    if s.condition ∈ taken then
      throw (.onLine (s.start + 1) (.duplicateBranch s.condition))
    let steps ← parseSection inner s
    let branches ← parseBranches inner (s.condition :: taken) rest
    return ⟨s.condition, steps⟩ :: branches

def parseLoop (inner : LinesReader) (start : Nat) (lines : List String) :
    Except ParseError (Step × Nat) := do
  let close ← (blockEnd lines).mapError (·.shifted start)
  let s := sectionAt start .loop lines 0 close
  let body ← parseSection inner s
  return (.loop s.condition body, close + 1)

def parseFork (inner : LinesReader) (start : Nat) (lines : List String) :
    Except ParseError (Step × Nat) := do
  let boundaries ← (branchBoundaries lines).mapError (·.shifted start)
  let branches ← parseBranches inner [] (sectionsFrom start .alt lines 0 boundaries)
  return (.fork branches, boundaries.getLastD 0 + 1)

def parseBlock (inner : LinesReader) : BlockReader := fun keyword start lines =>
  match keyword with
  | .loop => parseLoop inner start lines
  | .alt => parseFork inner start lines
  | _ => throw (.onLine (start + 1) (.unexpectedKeyword keyword))

/-- Refuses every block, as the limit is reached. -/
def refuseBlock (limit : Nat) : BlockReader := fun keyword start _ =>
  if keyword.opensBlock then throw (.onLine (start + 1) (.nestingTooDeep limit))
  else throw (.onLine (start + 1) (.unexpectedKeyword keyword))

/-- Reads steps line by line, after skipping lines that belong to the block read before. -/
def parseLines (index : IdIndex) (block : BlockReader) :
    (skip start : Nat) → List String → Except ParseError Flow
  | _, _, [] => return []
  | skip + 1, start, _ :: rest => parseLines index block skip (start + 1) rest
  | 0, start, line :: rest =>
    match Keyword.ofLine? line with
    | none => do
      let message ← parseInteraction index (start + 1) line
      let steps ← parseLines index block 0 (start + 1) rest
      return .interaction message :: steps
    | some keyword => do
      let (step, length) ← block keyword start (line :: rest)
      let steps ← parseLines index block (length - 1) (start + 1) rest
      return step :: steps

/-- Reads steps in which blocks are nested at most `budget` deep. -/
def parseSteps (index : IdIndex) (limit : Nat) :
    (budget start : Nat) → List String → Except ParseError Flow
  | 0, start, lines => parseLines index (refuseBlock limit) 0 start lines
  | budget + 1, start, lines =>
    parseLines index (parseBlock fun first inside => parseSteps index limit budget first inside)
      0 start lines

def parseSequence (entities : List Entity) (lines : List String)
    (limit : Nat := defaultNestingLimit) : Except ParseError Flow := do
  let flow ← parseSteps (IdIndex.ofEntities entities) limit limit 0 lines
  if flow.isEmpty then throw .emptySequence
  return flow

end UseCaseFlow
