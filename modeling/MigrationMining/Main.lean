import MigrationMining.Console.Plain
import MigrationMining.Console.Run

/-! The program: reads the working directory and the files of settings at home, runs the command on what it
read, and writes what has changed. No request leaves the program: every page of the web is missing. -/

namespace MigrationMining

partial def readEntry (fs : FileStore) (dir : Place) (entry : IO.FS.DirEntry) : IO FileStore := do
  let place := dir ++ [entry.fileName]
  if ← entry.path.isDir then
    (← entry.path.readDir).foldlM (fun fs e => readEntry fs place e) (fs.put place .directory)
  else
    let time := (← entry.path.metadata).modified
    return fs.put place (.file (← IO.FS.readBinFile entry.path) (time.sec * 1000000000 + time.nsec.toNat))

/-- The tree of the working directory. What is written to it is as new as the newest file. -/
def readTree : IO FileStore := do
  let fs ← (← (← IO.currentDir).readDir).foldlM (fun fs e => readEntry fs [] e) {}
  let clock := fs.nodes.foldl (fun clock (_, node) =>
    match node with
    | .file _ modified => max clock modified
    | .directory => clock) 0
  return { fs with clock }

/-- The tree with a file from outside the working directory, if there is such a file. -/
def readOutside (fs : FileStore) (file : Path) : IO FileStore := do
  try
    let content ← IO.FS.readBinFile file.text
    return (fs.saveBytes file content).toOption.getD fs
  catch _ => return fs

def readEnvironment : IO Environment :=
  (Console.configVariable :: Override.all.map (·.variableName)).filterMapM fun name => do
    return (← IO.getEnv name).map fun value => (name, value)

def writeChanges (before after : FileStore) : IO Unit := do
  for (place, _) in before.files do
    if (after.node? place).isNone then IO.FS.removeFile (Place.path place).text
  for (place, node) in after.nodes.reverse do
    if let .directory := node then IO.FS.createDirAll (Place.path place).text
  for (place, content) in before.changedSince after do
    IO.FS.writeBinFile (Place.path place).text content

def start (args : List String) : IO UInt32 := do
  let home := (← IO.getEnv "HOME").map Path.mk
  let settings := home.toList.flatMap fun home => [home / ".depshift.env", home / ".depshift" / "config.toml"]
  let files ← settings.foldlM readOutside (← readTree)
  let (ended, after) := Console.run .plain (← readEnvironment) home args { files }
  writeChanges files after.files
  IO.print ended.output
  IO.eprint ended.errors
  return ended.status.toUInt32

end MigrationMining

def main (args : List String) : IO UInt32 := MigrationMining.start args
