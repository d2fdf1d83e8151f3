import UseCaseFlow.Diagram.Error
/-!
# Load errors

Why a scenario cannot be loaded: its file is missing or unreadable, its fence is open, or its
diagram is malformed.
-/
namespace UseCaseFlow

/-- Why the text of a file cannot be read. -/
inductive ReadFailure where
  | missing
  | throughFile
  | isDirectory
  | invalidText
  deriving DecidableEq, Repr

inductive LoadError where
  | unreadable (reason : ReadFailure)
  | notFound (path : String)
  | unterminatedFence (line : Nat)
  | parse (error : ParseError)
  deriving DecidableEq, Repr

def ReadFailure.message : ReadFailure → String
  | .missing => "No such file or directory (os error 2)"
  | .throughFile => "Not a directory (os error 20)"
  | .isDirectory => "Is a directory (os error 21)"
  | .invalidText => "stream did not contain valid UTF-8"

def LoadError.message : LoadError → String
  | .unreadable reason => "IO error: " ++ reason.message
  | .notFound path => "Not found: " ++ path
  | .unterminatedFence line => s!"Unterminated diagram fence opened on line {line}"
  | .parse error => "Parse error: " ++ error.message

/-- Whether the text was read but could not be understood. -/
def LoadError.isParseError : LoadError → Bool
  | .unterminatedFence _ | .parse _ => true
  | _ => false

def LoadError.line? : LoadError → Option Nat
  | .unterminatedFence line => some line
  | .parse error => error.line?
  | _ => none

end UseCaseFlow
