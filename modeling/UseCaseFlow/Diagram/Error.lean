import UseCaseFlow.Diagram.Keyword
/-!
# Parse errors

What can be wrong with a line of a diagram, and where. Lines are numbered from one.
-/
namespace UseCaseFlow

inductive Defect where
  | malformedDeclaration (line : String)
  | unterminatedBlock (keyword : Keyword)
  | unknownEntity (id : String)
  | ambiguousEntity (id : String) (count : Nat)
  | malformedInteraction (line : String)
  | unexpectedKeyword (keyword : Keyword)
  | emptyBlock (keyword : Keyword)
  | duplicateBranch (condition : String)
  | nestingTooDeep (limit : Nat)
  deriving DecidableEq, Repr

inductive ParseError where
  | onLine (line : Nat) (defect : Defect)
  | emptySequence
  deriving DecidableEq, Repr

def Defect.message (line : Nat) : Defect → String
  | .malformedDeclaration text =>
    s!"malformed declaration on line {line}: {text} (expected '<actor|participant> <id> AS <name>')"
  | .unterminatedBlock keyword =>
    s!"unterminated '{keyword.text}' block opened on line {line}: missing 'end'"
  | .unknownEntity id => s!"unknown entity '{id}' on line {line}"
  | .ambiguousEntity id count =>
    s!"ambiguous entity '{id}' on line {line}: declared {count} times"
  | .malformedInteraction text =>
    s!"malformed interaction on line {line}: {text} " ++
      "(expected '<from> ->> <to> : <label>' or '<from> -->> <to> : <label>')"
  | .unexpectedKeyword keyword => s!"unexpected '{keyword.text}' on line {line}"
  | .emptyBlock keyword => s!"empty '{keyword.text}' section on line {line}: contains no steps"
  | .duplicateBranch condition =>
    s!"duplicate branch condition on line {line}: '{condition}'"
  | .nestingTooDeep limit =>
    s!"block nesting too deep on line {line}: max supported depth is {limit}"

def ParseError.message : ParseError → String
  | .onLine line defect => defect.message line
  | .emptySequence => "scenario contains no steps"

/-- The line that the error points at, if any. -/
def ParseError.line? : ParseError → Option Nat
  | .onLine line _ => some line
  | .emptySequence => none

/-- The same error in a text that has `count` more lines in front. -/
def ParseError.shifted (count : Nat) : ParseError → ParseError
  | .onLine line defect => .onLine (line + count) defect
  | .emptySequence => .emptySequence

@[simp] theorem ParseError.shifted_zero (e : ParseError) : e.shifted 0 = e := by
  cases e <;> rfl

end UseCaseFlow
