import UseCaseFlow.Corpus.Discovery
import UseCaseFlow.Scenario.Basic
/-!
# Loading a corpus

A scenario that cannot be loaded is kept as a failure and does not stop the others. Scenarios and
failures both keep the order in which their files are listed.
-/
namespace UseCaseFlow

structure LoadSettings where
  extension : String := "md"
  nestingLimit : Nat := defaultNestingLimit
  deriving DecidableEq, Repr

structure Corpus where
  scenarios : List Scenario
  failures : List (ScenarioKey × LoadError)

def loadFile (settings : LoadSettings) (tree : FileTree) (key : ScenarioKey) (path : String) :
    Except LoadError Scenario := do
  let text ← (tree.readText path).mapError .unreadable
  Scenario.parse key text settings.nestingLimit

def loadScenario (settings : LoadSettings) (tree : FileTree) (root req ucid : String) :
    Except LoadError Scenario :=
  let path := joinPath (joinPath root req) (ucid ++ "." ++ settings.extension)
  if tree.hasFile path then loadFile settings tree ⟨req, ucid⟩ path else .error (.notFound path)

/-- Adds what loading a file gave in front of the corpus. -/
def Corpus.add (key : ScenarioKey) (result : Except LoadError Scenario) (c : Corpus) : Corpus :=
  match result with
  | .ok scenario => { c with scenarios := scenario :: c.scenarios }
  | .error e => { c with failures := (key, e) :: c.failures }

/-- Loads every scenario under the root. Fails only if the root is not a directory. -/
def loadCorpus (settings : LoadSettings) (tree : FileTree) (root : String) :
    Except LoadError Corpus := do
  let files ← discover tree root settings.extension
  return files.foldr (fun file => Corpus.add file.key (loadFile settings tree file.key file.path))
    ⟨[], []⟩

end UseCaseFlow
