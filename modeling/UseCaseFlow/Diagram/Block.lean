import UseCaseFlow.Diagram.Error
/-!
# Blocks

A block runs from its opening line to the first `end` that no nested block takes. The `else` lines
of the same level cut it into sections. Line indices count from the opening line, which is line 0.
-/
namespace UseCaseFlow

/-- Where a block ends, and where it is cut. -/
structure Extent where
  separators : List Nat
  close : Nat
  deriving DecidableEq, Repr

def Extent.addSeparator (index : Nat) (e : Extent) : Extent :=
  { e with separators := index :: e.separators }

/-- Every line at which a section ends: the separators and the closing `end`. -/
def Extent.boundaries (e : Extent) : List Nat :=
  e.separators ++ [e.close]

/-- Scans the lines from `index` on, inside `depth` blocks that are nested in the scanned one. -/
def scanBlock (depth index : Nat) : List String → Option Extent
  | [] => none
  | line :: rest =>
    match Keyword.ofLine? line, depth with
    | some .close, 0 => some ⟨[], index⟩
    | some .close, depth + 1 => scanBlock depth (index + 1) rest
    | some .otherwise, 0 => (scanBlock 0 (index + 1) rest).map (·.addSeparator index)
    | some .alt, depth | some .loop, depth => scanBlock (depth + 1) (index + 1) rest
    | _, depth => scanBlock depth (index + 1) rest

/-- The extent of the block that the first line opens, whatever that line says. -/
def blockExtent? (lines : List String) : Option Extent :=
  scanBlock 0 1 lines.tail

/-- The keyword that a missing `end` is reported for. -/
def openerOf (fallback : Keyword) (lines : List String) : Keyword :=
  match lines.head?.bind Keyword.ofLine? with
  | some keyword => if keyword.opensBlock then keyword else fallback
  | none => fallback

def requireExtent (fallback : Keyword) (lines : List String) : Except ParseError Extent :=
  match blockExtent? lines with
  | some extent => .ok extent
  | none => .error (.onLine 1 (.unterminatedBlock (openerOf fallback lines)))

/-- The index of the `end` that closes the block. -/
def blockEnd (lines : List String) : Except ParseError Nat :=
  return (← requireExtent .loop lines).close

/-- The indices of the block's own `else` lines, and last the index of its `end`. -/
def branchBoundaries (lines : List String) : Except ParseError (List Nat) :=
  return (← requireExtent .alt lines).boundaries

/-- One section of a block: its opening line stands after `start` lines of the whole sequence. -/
structure Section where
  start : Nat
  keyword : Keyword
  condition : String
  body : List String
  deriving DecidableEq, Repr

/-- The section from the line at index `opener` up to the line at index `boundary`. -/
def sectionAt (start : Nat) (keyword : Keyword) (lines : List String) (opener boundary : Nat) :
    Section where
  start := start + opener
  keyword := keyword
  condition := keyword.restOf (lines.getD opener "")
  body := (lines.take boundary).drop (opener + 1)

/-- The sections that start at index `opener` and at each boundary but the last. -/
def sectionsFrom (start : Nat) (keyword : Keyword) (lines : List String) (opener : Nat) :
    List Nat → List Section
  | [] => []
  | boundary :: rest =>
    sectionAt start keyword lines opener boundary ::
      sectionsFrom start .otherwise lines boundary rest

end UseCaseFlow
