/-!
# Paths

Paths are text with `/` between the parts. They are joined as they are written; `.` and `..` mean
something only when a path is followed through a file tree.
-/
namespace UseCaseFlow

def isAbsolute (path : String) : Bool :=
  path.toList.head? == some '/'

/-- The parts between the slashes. -/
def pathParts (path : String) : List String :=
  (path.toList.splitOn '/').map String.ofList

/-- Appends `part` with one `/` between, unless `base` ends with one already. An absolute part
replaces the base. -/
def joinPath (base part : String) : String :=
  if isAbsolute part then part
  else
    match base.toList.getLast? with
    | none | some '/' => base ++ part
    | some _ => base ++ "/" ++ part

/-- What follows the last dot of a file name. A dot that only starts the name does not count. -/
def fileExtension? (name : String) : Option String :=
  let reversed := name.toList.reverse
  match reversed.dropWhile (· != '.') with
  | [] | [_] => none
  | _ => some (String.ofList (reversed.takeWhile (· != '.')).reverse)

/-- The file name up to its first dot. -/
def fileStem (name : String) : String :=
  String.ofList (name.toList.takeWhile (· != '.'))

end UseCaseFlow
