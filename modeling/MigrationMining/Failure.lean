import MigrationMining.Coordinate

/-! What can go wrong when files are touched and when a dataset is mined, and the words for it. -/

namespace MigrationMining

inductive FileFailure where
  | missing
  | exists
  | notADirectory
  | isADirectory
  | notEmpty
  | notText
  deriving DecidableEq

def FileFailure.message : FileFailure → String
  | .missing => "No such file or directory (os error 2)"
  | .exists => "File exists (os error 17)"
  | .notADirectory => "Not a directory (os error 20)"
  | .isADirectory => "Is a directory (os error 21)"
  | .notEmpty => "Directory not empty (os error 39)"
  | .notText => "stream did not contain valid UTF-8"

/-- The kinds of failure a mining step ends with; each but the last keeps the words of its cause. -/
inductive Failure where
  | file (cause : String)
  | serialization (cause : String)
  | configuration (cause : String)
  | notFound (what : String)
  | transient (cause : String)
  | malformedInput (cause : String)
  | extraction (cause : String)
  | invalidInput (cause : String)
  | cancelled
  deriving DecidableEq

namespace Failure

def message : Failure → String
  | .file cause => "IO error: " ++ cause
  | .serialization cause => "Serialization error: " ++ cause
  | .configuration cause => "Configuration error: " ++ cause
  | .notFound what => "Not found: " ++ what
  | .transient cause => "Transient failure: " ++ cause
  | .malformedInput cause => "Malformed input: " ++ cause
  | .extraction cause => "Extraction failed: " ++ cause
  | .invalidInput cause => "Invalid input: " ++ cause
  | .cancelled => "Operation cancelled"

def isRetryable : Failure → Bool
  | .transient _ => true
  | _ => false

end Failure

def FileFailure.failure (f : FileFailure) : Failure := .file f.message

def MalformedName.failure (m : MalformedName) : Failure := .malformedInput m.message

end MigrationMining
