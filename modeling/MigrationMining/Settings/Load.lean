import MigrationMining.Settings.Check
import MigrationMining.Settings.Document
import MigrationMining.Settings.Readers

/-! Loading settings: from the first file of settings that there is, with variables put over it. -/

namespace MigrationMining.Settings

/-- The variables of the environment, and then those of a file of variables: the one in the working directory if there is
something of that name, or else the one in the home directory. -/
def allVariables (r : VariableReader) (s : Surroundings) : Environment :=
  if s.files.exists? ⟨".env"⟩ then r.fromFilename s ".env"
  else
    match (s.home.map (· / ".depshift.env")).filter s.files.exists? with
    | some file => r.fromPath s file
    | none => s.env

/-- The file of settings: the one asked for, or else the first that exists. -/
def file? (s : Surroundings) (asked : Option Path) : Except SettingsFailure (Option Path) :=
  match asked with
  | some file => if s.files.exists? file then .ok (some file) else .error (.notFound file)
  | none =>
    if s.files.exists? ⟨".depshift.toml"⟩ then .ok (some ⟨".depshift.toml"⟩)
    else .ok ((s.home.map (· / ".depshift" / "config.toml")).filter s.files.exists?)

def readFile (document : String → Option Toml.Entries) (fs : FileStore) (file : Path) : Except SettingsFailure Settings :=
  match fs.readText file with
  | .error e => .error (.unreadable e)
  | .ok text =>
    match parse document text with
    | some settings => .ok settings
    | none => .error .malformed

/-- Valid settings and the file that they were read from. -/
def load (r : Readers) (s : Surroundings) (asked : Option Path) : Except SettingsFailure (Settings × Option Path) := do
  let file ← file? s asked
  let stored ← match file with
    | some file => readFile r.ofDocument s.files file
    | none => pure {}
  let settings := stored.override (allVariables r.ofVariables s)
  match settings.check with
  | .error e => .error (.invalid e)
  | .ok () => return (settings, file)

end MigrationMining.Settings
