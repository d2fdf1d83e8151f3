/-!
# Entities

The actors and participants that a scenario declares before its steps. Steps refer to an entity by
its position in the declaration list.
-/
namespace UseCaseFlow

/-- An actor is a person, a participant is a part of the system. -/
inductive EntityKind where
  | actor
  | participant
  deriving DecidableEq, Repr

/-- A declared entity. Its name is explicit unless it was declared as a placeholder in parentheses. -/
structure Entity where
  id : String
  name : String
  kind : EntityKind
  explicit : Bool
  deriving DecidableEq, Repr

def Entity.isActor (e : Entity) : Bool :=
  e.kind == .actor

structure EntityFilter where
  onlyActors : Bool := false
  onlyExplicit : Bool := false
  deriving DecidableEq, Repr

def EntityFilter.accepts (f : EntityFilter) (e : Entity) : Bool :=
  (!f.onlyActors || e.isActor) && (!f.onlyExplicit || e.explicit)

def countEntities (f : EntityFilter) (entities : List Entity) : Nat :=
  entities.countP f.accepts

end UseCaseFlow
