import Mathlib.Data.List.Infix
import UseCaseFlow.Proofs.Diagram.Keyword
import UseCaseFlow.Proofs.Flow.Shape
import UseCaseFlow.Scenario.Basic

/-!
# Writing a scenario

The document of a scenario: its entities and its flow as the lines of a fenced diagram, with spaces
in front of the lines. Not every scenario can be written, as ids and names may look like other
parts of a diagram.
-/

namespace UseCaseFlow

open Text

def EntityKind.keyword : EntityKind → Keyword
  | .actor => .actor
  | .participant => .participant

/-- The name as a declaration shows it; a placeholder stands in parentheses. -/
def Entity.shownName (e : Entity) : String :=
  if e.explicit then e.name else "(" ++ e.name ++ ")"

def Entity.declaration (e : Entity) : String :=
  e.kind.keyword.line (e.id ++ " AS " ++ e.shownName)

def idAt (entities : List Entity) (position : Nat) : String :=
  (entities[position]?.map (·.id)).getD ""

def arrowText (returns : Bool) : String :=
  if returns then "-->>" else "->>"

def messageLine (message : Message) : String :=
  message.source ++ " " ++ arrowText message.returns ++ " " ++ message.target ++ " : " ++
    message.label

def Interaction.message (entities : List Entity) (i : Interaction) : Message where
  source := idAt entities i.source
  target := idAt entities i.target
  returns := i.returns
  label := i.label

mutual

def Step.lines (entities : List Entity) : Step → List String
  | .interaction message => [messageLine (message.message entities)]
  | .loop condition body =>
    Keyword.loop.line condition :: Flow.lines entities body ++ [Keyword.close.text]
  | .fork branches => Flow.branchLines entities .alt branches ++ [Keyword.close.text]

def Flow.lines (entities : List Entity) : Flow → List String
  | [] => []
  | step :: rest => step.lines entities ++ Flow.lines entities rest

def Flow.branchLines (entities : List Entity) (keyword : Keyword) : List (Branch Step) → List String
  | [] => []
  | b :: rest =>
    keyword.line b.condition :: Flow.lines entities b.steps ++
      Flow.branchLines entities .otherwise rest

end

/-- The lines of a document that holds the entities and the flow. -/
def documentLines (entities : List Entity) (flow : Flow) : List String :=
  "```mermaid" :: "sequenceDiagram" ::
    (entities.map (·.declaration) ++ flow.lines entities ++ ["```"])

/-- How lines are put into one text: with that many spaces in front of each line, and with a line
feed at the end or without. -/
structure Layout where
  indent : Nat → Nat
  endsWithNewline : Bool

def indented (count : Nat) (line : String) : String :=
  String.ofList (List.replicate count ' ') ++ line

def Layout.text (layout : Layout) (lines : List String) : String :=
  "\n".intercalate (lines.mapIdx fun i line => indented (layout.indent i) line) ++
    if layout.endsWithNewline then "\n" else ""

/-- Text on one line with no blanks around it. -/
structure PlainText (s : String) : Prop where
  oneLine : '\n' ∉ s.toList
  trimmed : Trimmed s.toList

instance (s : String) : Decidable (PlainText s) :=
  decidable_of_iff ('\n' ∉ s.toList ∧ Trimmed s.toList)
    ⟨fun h => ⟨h.1, h.2⟩, fun h => ⟨h.oneLine, h.trimmed⟩⟩

/-- An id that no other part of a line is mistaken for. -/
structure PlainId (id : String) : Prop extends PlainText id where
  nonempty : id ≠ ""
  noFence : ¬ "```".toList <+: id.toList
  noArrow : ¬ "->>".toList <:+: id.toList
  noKeyword : Keyword.ofLine? id = none
  noAs : ¬ " AS ".toList <:+: id.toList ++ [' ']
  noColon : ¬ " : ".toList <:+: ' ' :: id.toList ++ [' ']

instance (id : String) : Decidable (PlainId id) :=
  decidable_of_iff (PlainText id ∧ id ≠ "" ∧ ¬ "```".toList <+: id.toList ∧
      ¬ "->>".toList <:+: id.toList ∧ Keyword.ofLine? id = none ∧
      ¬ " AS ".toList <:+: id.toList ++ [' '] ∧ ¬ " : ".toList <:+: ' ' :: id.toList ++ [' '])
    ⟨fun ⟨htext, hne, hfence, harrow, hkeyword, has, hcolon⟩ =>
      ⟨htext, hne, hfence, harrow, hkeyword, has, hcolon⟩,
    fun h => ⟨h.toPlainText, h.nonempty, h.noFence, h.noArrow, h.noKeyword, h.noAs, h.noColon⟩⟩

structure PlainEntity (e : Entity) : Prop where
  id : PlainId e.id
  name : PlainText e.name
  named : e.name ≠ ""
  notOpened : e.explicit = true → e.name.toList.head? ≠ some '('
  notClosed : e.explicit = true → e.name.toList.getLast? ≠ some ')'

instance (e : Entity) : Decidable (PlainEntity e) :=
  decidable_of_iff (PlainId e.id ∧ PlainText e.name ∧ e.name ≠ "" ∧
      (e.explicit = true → e.name.toList.head? ≠ some '(') ∧
      (e.explicit = true → e.name.toList.getLast? ≠ some ')'))
    ⟨fun ⟨hid, hname, hne, hopen, hclose⟩ => ⟨hid, hname, hne, hopen, hclose⟩,
    fun h => ⟨h.id, h.name, h.named, h.notOpened, h.notClosed⟩⟩

/-- A message between entities of the list. -/
structure PlainMessage (entities : List Entity) (message : Interaction) : Prop where
  source : message.source < entities.length
  target : message.target < entities.length
  label : PlainText message.label

instance (entities : List Entity) (message : Interaction) :
    Decidable (PlainMessage entities message) :=
  decidable_of_iff (message.source < entities.length ∧ message.target < entities.length ∧
      PlainText message.label)
    ⟨fun ⟨hsource, htarget, hlabel⟩ => ⟨hsource, htarget, hlabel⟩,
    fun h => ⟨h.source, h.target, h.label⟩⟩

/-- The parts of a scenario can be told apart in its lines. -/
structure Writable (entities : List Entity) (flow : Flow) : Prop where
  declared : ∀ e ∈ entities, PlainEntity e
  distinct : (entities.map (·.id)).Nodup
  wellFormed : Flow.WellFormed flow
  conditions : ∀ c ∈ Flow.conditions flow, PlainText c
  messages : ∀ m ∈ Flow.interactions flow, PlainMessage entities m

end UseCaseFlow
