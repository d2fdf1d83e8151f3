import UseCaseFlow.Diagram.Error
import UseCaseFlow.Entity
import UseCaseFlow.Text.Cut
/-!
# Declarations

A diagram starts with the lines that declare its actors and participants:
`actor <id> AS <name>`, or `actor <id> AS (<name>)` for a placeholder name.
-/
namespace UseCaseFlow

open Text

def Keyword.entityKind? : Keyword → Option EntityKind
  | .actor => some .actor
  | .participant => some .participant
  | _ => none

/-- The name without one parenthesis on either side. -/
def withoutParentheses (name : List Char) : List Char :=
  let name := if name.head? = some '(' then name.tail else name
  trim (if name.getLast? = some ')' then name.dropLast else name)

/-- The displayed name, and whether it was given explicitly. -/
def readName (name : List Char) : List Char × Bool :=
  if name.head? = some '(' || name.getLast? = some ')' then (withoutParentheses name, false)
  else (name, true)

def readEntity? (line : String) : Option Entity := do
  let keyword ← Keyword.ofLine? line
  let kind ← keyword.entityKind?
  let (id, name) ← cut? " AS ".toList (keyword.restOf line).toList
  let id := trim id
  let (name, explicit) := readName (trim name)
  guard (!id.isEmpty && !name.isEmpty)
  return { id := String.ofList id, name := String.ofList name, kind, explicit }

/-- Reads one declaration. An error points at line 1. -/
def parseEntity (line : String) : Except ParseError Entity :=
  match readEntity? (trimmed line) with
  | some entity => .ok entity
  | none => .error (.onLine 1 (.malformedDeclaration (trimmed line)))

def isDeclaration (line : String) : Bool :=
  (Keyword.ofLine? line).any Keyword.declaresEntity

/-- Reads declarations up to the first other line, with `start` lines before the first of `lines`. -/
def parseDeclarationsFrom (start : Nat) : List String → Except ParseError (List Entity)
  | [] => .ok []
  | line :: rest =>
    if isDeclaration line then do
      let entity ← (parseEntity line).mapError (·.shifted start)
      let entities ← parseDeclarationsFrom (start + 1) rest
      return entity :: entities
    else .ok []

/-- The entities declared by the leading lines. Each takes one line. -/
def parseDeclarations (lines : List String) : Except ParseError (List Entity) :=
  parseDeclarationsFrom 0 lines

theorem Keyword.isSome_entityKind? (k : Keyword) : k.entityKind?.isSome = k.declaresEntity := by
  cases k <;> rfl

end UseCaseFlow
