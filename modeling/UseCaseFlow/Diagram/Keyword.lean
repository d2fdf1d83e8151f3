import UseCaseFlow.Text.Trim
/-!
# Keywords

A line of a diagram is classified by its first word. Only a whole word counts: a line that starts
with `endpoint` closes nothing.
-/
namespace UseCaseFlow

open Text

inductive Keyword where
  | actor
  | participant
  | alt
  | otherwise
  | loop
  | close
  deriving DecidableEq, Repr

def Keyword.all : List Keyword :=
  [.actor, .participant, .alt, .otherwise, .loop, .close]

def Keyword.text : Keyword → String
  | .actor => "actor"
  | .participant => "participant"
  | .alt => "alt"
  | .otherwise => "else"
  | .loop => "loop"
  | .close => "end"

def Keyword.ofWord? (word : List Char) : Option Keyword :=
  Keyword.all.find? fun k => k.text.toList == word

def Keyword.ofLine? (line : String) : Option Keyword :=
  Keyword.ofWord? (firstWord line.toList)

/-- Whether the keyword opens a block that runs to its own `end`. -/
def Keyword.opensBlock : Keyword → Bool
  | .alt | .loop => true
  | _ => false

def Keyword.declaresEntity : Keyword → Bool
  | .actor | .participant => true
  | _ => false

/-- The trimmed text after the keyword; empty if the line does not start with the keyword's text. -/
def Keyword.restOf (k : Keyword) (line : String) : String :=
  match k.text.toList.isPrefixOf? (trimStart line.toList) with
  | some rest => String.ofList (trim rest)
  | none => ""

theorem Keyword.mem_all (k : Keyword) : k ∈ Keyword.all := by
  cases k <;> decide

theorem Keyword.text_injective {k l : Keyword} (h : k.text = l.text) : k = l := by
  revert h
  cases k <;> cases l <;> decide

end UseCaseFlow
