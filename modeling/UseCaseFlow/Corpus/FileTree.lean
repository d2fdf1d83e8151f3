import UseCaseFlow.Corpus.Path
import UseCaseFlow.Scenario.LoadError
/-!
# File trees

Files and directories without links. A path is followed part by part from the top of the tree, and
a part can only be followed out of a directory. Absolute paths lead outside every tree.
-/
namespace UseCaseFlow

inductive FileTree where
  | file (content : ByteArray)
  | directory (entries : List (String × FileTree))

abbrev Entries := List (String × FileTree)

def FileTree.empty : FileTree :=
  .directory []

def FileTree.isFile : FileTree → Bool
  | .file _ => true
  | .directory _ => false

def Entries.get? (entries : Entries) (name : String) : Option FileTree :=
  (entries.find? (·.1 = name)).map (·.2)

/-- Replaces the entry of that name, or adds it at the end. -/
def Entries.set (name : String) (tree : FileTree) : Entries → Entries
  | [] => [(name, tree)]
  | entry :: rest =>
    if entry.1 = name then (name, tree) :: rest else entry :: Entries.set name tree rest

/-- Follows the parts from `here`, whose enclosing directories are `above`, innermost first. -/
def FileTree.follow (above : List FileTree) (here : FileTree) :
    List String → Except ReadFailure FileTree
  | [] => .ok here
  | part :: rest =>
    match here with
    | .file _ => .error .throughFile
    | .directory entries =>
      if part = "" ∨ part = "." then FileTree.follow above here rest
      else if part = ".." then
        match above with
        | [] => .error .missing
        | parent :: outer => FileTree.follow outer parent rest
      else
        match Entries.get? entries part with
        | some child => FileTree.follow (here :: above) child rest
        | none => .error .missing

/-- What the path leads to. No name holds the character U+0000. -/
def FileTree.locate (tree : FileTree) (path : String) : Except ReadFailure FileTree :=
  if path.isEmpty || isAbsolute path || path.toList.contains '\x00' then .error .missing
  else tree.follow [] (pathParts path)

def FileTree.hasFile (tree : FileTree) (path : String) : Bool :=
  match tree.locate path with
  | .ok node => node.isFile
  | .error _ => false

/-- The text of the file at the path, which has to be valid UTF-8. -/
def FileTree.readText (tree : FileTree) (path : String) : Except ReadFailure String :=
  match tree.locate path with
  | .ok (.file content) =>
    match String.fromUTF8? content with
    | some text => .ok text
    | none => .error .invalidText
  | .ok (.directory _) => .error .isDirectory
  | .error reason => .error reason

/-- Changes the entries of the directory that the names lead to. -/
def FileTree.changeEntries (change : Entries → Option Entries) :
    (location : List String) → FileTree → Option FileTree
  | _, .file _ => none
  | [], .directory entries => (change entries).map .directory
  | name :: rest, .directory entries => do
    let child ← Entries.get? entries name
    let child ← FileTree.changeEntries change rest child
    return .directory (Entries.set name child entries)

def Entries.addDirectory (name : String) (entries : Entries) : Option Entries :=
  match entries.get? name with
  | none => some (entries.set name .empty)
  | some (.directory _) => some entries
  | some (.file _) => none

def Entries.writeFile (name : String) (content : ByteArray) (entries : Entries) : Option Entries :=
  match entries.get? name with
  | some (.directory _) => none
  | _ => some (entries.set name (.file content))

def Entries.removeFile (name : String) (entries : Entries) : Option Entries :=
  match entries.get? name with
  | some (.file _) => some (entries.filter (·.1 ≠ name))
  | _ => none

/-- Creates the missing directories on the way along the parts, and returns where the way ends. -/
def FileTree.makeDirectories (location : List String) :
    List String → FileTree → Option (List String × FileTree)
  | [], tree => some (location, tree)
  | part :: rest, tree =>
    if part = "" ∨ part = "." then makeDirectories location rest tree
    else if part = ".." then makeDirectories location.dropLast rest tree
    else do
      let tree ← tree.changeEntries (Entries.addDirectory part) location
      makeDirectories (location ++ [part]) rest tree

/-- Changes the entries of the directory that holds the path, creating it if it is missing. -/
def FileTree.changeAt (change : String → Entries → Option Entries) (tree : FileTree)
    (path : String) : Option FileTree := do
  let parts := pathParts path
  let name ← parts.getLast?
  let (location, tree) ← tree.makeDirectories [] parts.dropLast
  tree.changeEntries (change name) location

def FileTree.write (tree : FileTree) (path : String) (content : ByteArray) : Option FileTree :=
  tree.changeAt (fun name => Entries.writeFile name content) path

def FileTree.makeDirectory (tree : FileTree) (path : String) : Option FileTree :=
  (tree.makeDirectories [] (pathParts path)).map (·.2)

def FileTree.remove (tree : FileTree) (path : String) : Option FileTree :=
  if tree.hasFile path then tree.changeAt Entries.removeFile path else none

end UseCaseFlow
