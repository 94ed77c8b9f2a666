import MigrationMining.CodeModel.Program
import MigrationMining.CodeModel.Sidecar
import MigrationMining.Json.Printer
import MigrationMining.Json.Reader
import MigrationMining.Text.Encoding

/-! Backends: where the code model of an archive comes from. -/

namespace MigrationMining

/-- A backend may change files while it extracts a model. -/
structure Backend where
  name : String
  extract : Path → FileStore → Except ExtractFailure CodeModel × FileStore

def ModelFacts.parse (content : ByteArray) : Option ModelFacts :=
  (String.fromUTF8? content).bind fun text => (Json.read text).bind ModelFacts.ofJson?

namespace Backend

def facts : Backend where
  name := "facts"
  extract archive fs := (Sidecar.model fs archive, fs)

def modelOf (program : String) (ended : Finished) : Except ExtractFailure CodeModel :=
  match ended.ending with
  | .exited 0 =>
    match ModelFacts.parse ended.output with
    | some f => .ok f.model
    | none => .error .unreadableOutput
  | failed => .error (.commandFailed program failed.text (String.ofList (Text.trim (Text.decode ended.errors.toList))))

/-- Runs a program with the archive as last argument and reads the facts that it prints. -/
def command (programs : Programs) (program : String) (args : List String) : Backend where
  name := "command"
  extract archive fs :=
    if fs.exists? archive then
      match programs fs program (args ++ [archive.text]) with
      | some ended => (modelOf program ended, ended.files)
      | none => (.error (.file .missing), fs)
    else (.error (.missingModel archive), fs)

end Backend

end MigrationMining
