import UseCaseFlow.Diagram.Error
import UseCaseFlow.Entity
/-!
# Index of entity ids

For every declared id, the position of its first declaration and how often it is declared. An
interaction may only name an id that is declared once.
-/
namespace UseCaseFlow

structure IdOccurrence where
  id : String
  first : Nat
  count : Nat
  deriving DecidableEq, Repr

abbrev IdIndex := List IdOccurrence

def IdIndex.record (id : String) (position : Nat) : IdIndex → IdIndex
  | [] => [⟨id, position, 1⟩]
  | entry :: rest =>
    if entry.id = id then { entry with count := entry.count + 1 } :: rest
    else entry :: IdIndex.record id position rest

/-- Adds the entities, of which the first is declared at `position`. -/
def IdIndex.recordAll (position : Nat) : List Entity → IdIndex → IdIndex
  | [], index => index
  | e :: rest, index => IdIndex.recordAll (position + 1) rest (index.record e.id position)

def IdIndex.ofEntities (entities : List Entity) : IdIndex :=
  IdIndex.recordAll 0 entities []

def IdIndex.get? (index : IdIndex) (id : String) : Option IdOccurrence :=
  index.find? (·.id = id)

/-- The position of the entity that an interaction on the given line names. -/
def IdIndex.resolve (index : IdIndex) (id : String) (line : Nat) : Except ParseError Nat :=
  match index.get? id with
  | some entry =>
    if entry.count = 1 then .ok entry.first
    else .error (.onLine line (.ambiguousEntity id entry.count))
  | none => .error (.onLine line (.unknownEntity id))

end UseCaseFlow
