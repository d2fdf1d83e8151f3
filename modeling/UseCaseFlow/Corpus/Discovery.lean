import UseCaseFlow.Corpus.FileTree
import UseCaseFlow.Scenario.Key
/-!
# Corpus discovery

The scenario files of a corpus are the files exactly two levels below its root that have the
scenario extension. They are listed by key, and by path where keys are equal.
-/
namespace UseCaseFlow

structure ScenarioFile where
  key : ScenarioKey
  path : String
  deriving DecidableEq, Repr

def ScenarioFile.order (a b : ScenarioFile) : Ordering :=
  (a.key.order b.key).then (compare a.path b.path)

def ScenarioFile.notAfter (a b : ScenarioFile) : Bool :=
  (a.order b).isLE

/-- The scenario file that an entry of the directory `req` is, if it is one. -/
def scenarioFile? (root extension req : String) (entry : String × FileTree) :
    Option ScenarioFile :=
  if entry.2.isFile && fileExtension? entry.1 == some extension then
    some ⟨⟨req, fileStem entry.1⟩, joinPath (joinPath root req) entry.1⟩
  else none

def requirementFiles (root extension : String) (entry : String × FileTree) : List ScenarioFile :=
  match entry.2 with
  | .file _ => []
  | .directory entries => entries.filterMap (scenarioFile? root extension entry.1)

/-- The scenario files under the root, which has to be a directory. -/
def discover (tree : FileTree) (root extension : String) :
    Except LoadError (List ScenarioFile) :=
  match tree.locate root with
  | .ok (.directory entries) =>
    .ok ((entries.flatMap (requirementFiles root extension)).mergeSort ScenarioFile.notAfter)
  | _ => .error (.notFound root)

end UseCaseFlow
