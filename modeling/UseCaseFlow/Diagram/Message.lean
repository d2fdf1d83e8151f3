import UseCaseFlow.Diagram.IdIndex
import UseCaseFlow.Flow.Basic
import UseCaseFlow.Text.Cut
import UseCaseFlow.Text.Trim
/-!
# Message lines

An interaction is written `<from> ->> <to> : <label>`, or with `-->>` for a call that returns.
Without a spaced colon the label starts after the first colon behind the arrow, so that
`a->>b:message` is read and ids may hold colons.
-/
namespace UseCaseFlow

open Text

def splitLabel? (line : List Char) : Option (List Char × List Char) :=
  match cut? " : ".toList line with
  | some pieces => some pieces
  | none => do
    let (source, rest) ← cut? "->>".toList line
    let (target, label) ← cut? ":".toList rest
    return (source ++ "->>".toList ++ target, label)

/-- Whether the call returns, and the text on both sides of the arrow. -/
def splitArrow? (arrow : List Char) : Option (Bool × List Char × List Char) :=
  match cut? "-->>".toList arrow with
  | some ends => some (true, ends)
  | none => (cut? "->>".toList arrow).map fun ends => (false, ends)

/-- A message line with the ids as written. -/
structure Message where
  source : String
  target : String
  returns : Bool
  label : String
  deriving DecidableEq, Repr

def readMessage? (line : String) : Option Message := do
  let (arrow, label) ← splitLabel? line.toList
  let (returns, source, target) ← splitArrow? arrow
  let source := trim source
  let target := trim target
  guard (!source.isEmpty && !target.isEmpty)
  return {
    source := String.ofList source
    target := String.ofList target
    returns
    label := String.ofList (trim label) }

/-- Reads the interaction on a line, given by its number. Ids must be declared exactly once. -/
def parseInteraction (index : IdIndex) (number : Nat) (line : String) :
    Except ParseError Interaction :=
  match readMessage? line with
  | some message => do
    let source ← index.resolve message.source number
    let target ← index.resolve message.target number
    return { source, target, returns := message.returns, label := message.label }
  | none => .error (.onLine number (.malformedInteraction line))

end UseCaseFlow
