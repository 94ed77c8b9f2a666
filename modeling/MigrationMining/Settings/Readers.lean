import MigrationMining.FileStore
import MigrationMining.Settings.Environment
import MigrationMining.Toml.Basic

/-! The libraries that settings are read with, as far as loading relies on them. -/

namespace MigrationMining.Settings

structure Surroundings where
  files : FileStore
  env : Environment
  home : Option Path
  depth : Nat := 0

/-- The paths of a name in the working directory and in the directories above it, in sequence. -/
def Surroundings.upwards (s : Surroundings) (name : String) : List Path :=
  (List.range (s.depth + 1)).map fun n => ⟨String.join (List.replicate n "../") ++ name⟩

/-- A reader of files of variables: the variables after a file was read, and what a file sets. -/
structure VariableReader where
  /-- Reads the file of a name, which is looked for upwards from the working directory. -/
  fromFilename : Surroundings → String → Environment
  fromPath : Surroundings → Path → Environment
  /-- The variables that a content sets, in its order and with repetitions, up to what cannot be read. -/
  entries : Environment → ByteArray → Environment

structure Readers where
  ofVariables : VariableReader
  ofDocument : String → Option Toml.Entries

end MigrationMining.Settings
