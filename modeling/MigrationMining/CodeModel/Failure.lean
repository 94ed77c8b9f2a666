import MigrationMining.Failure
import MigrationMining.Path

/-! Why no code model can be had of an archive. -/

namespace MigrationMining

inductive ExtractFailure where
  | file (cause : FileFailure)
  | missingModel (archive : Path)
  | commandFailed (command status errors : String)
  | unreadableOutput
  | corruptEntry (entry : Path)
  deriving DecidableEq

namespace ExtractFailure

def message : ExtractFailure → String
  | .file cause => "IO error: " ++ cause.message
  | .missingModel archive => "No code model for " ++ archive.text
  | .commandFailed command status errors => "Front end " ++ command ++ " failed (" ++ status ++ "): " ++ errors
  | .unreadableOutput => "Unreadable front-end output: not the facts of a model"
  | .corruptEntry entry => "Corrupt cache entry " ++ entry.text

def failure (e : ExtractFailure) : Failure :=
  match e with
  | .corruptEntry _ => .malformedInput e.message
  | _ => .extraction e.message

end ExtractFailure

end MigrationMining
