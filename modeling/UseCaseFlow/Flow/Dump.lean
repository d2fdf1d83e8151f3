import UseCaseFlow.Flow.Basic
/-!
# Dump of a flow

The structure of a flow as one line of text, for inspection. Labels and conditions are quoted, so
that brackets and quotes inside them cannot be taken for structure.
-/
namespace UseCaseFlow

/-- Escapes quotes, backslashes and tabs. -/
def escapeChar (c : Char) : List Char :=
  match c with
  | '"' => ['\\', '"']
  | '\\' => ['\\', '\\']
  | '\t' => ['\\', 't']
  | _ => [c]

def quoted (s : String) : String :=
  "\"" ++ String.ofList (s.toList.flatMap escapeChar) ++ "\""

def Interaction.dump (message : Interaction) : String :=
  "Interaction(Interaction \x7b source: EntityIdx(" ++ toString message.source ++
    "), target: EntityIdx(" ++ toString message.target ++ "), returns: " ++
    toString message.returns ++ ", label: " ++ quoted message.label ++ " \x7d)"

mutual
def Step.dump : Step → String
  | .interaction message => message.dump
  | .loop condition body =>
    "Loop(Loop \x7b condition: " ++ quoted condition ++ ", body: [" ++ Flow.dumpSteps body ++
      "] \x7d)"
  | .fork branches => "Fork(Fork \x7b branches: \x7b" ++ Flow.dumpBranches branches ++ "\x7d \x7d)"

def Flow.dumpSteps : Flow → String
  | [] => ""
  | [step] => step.dump
  | step :: next :: rest => step.dump ++ ", " ++ Flow.dumpSteps (next :: rest)

def Flow.dumpBranches : List (Branch Step) → String
  | [] => ""
  | [b] => quoted b.condition ++ ": [" ++ Flow.dumpSteps b.steps ++ "]"
  | b :: next :: rest =>
    quoted b.condition ++ ": [" ++ Flow.dumpSteps b.steps ++ "], " ++
      Flow.dumpBranches (next :: rest)
end

def Flow.dump (flow : Flow) : String :=
  "[" ++ Flow.dumpSteps flow ++ "]"

end UseCaseFlow
