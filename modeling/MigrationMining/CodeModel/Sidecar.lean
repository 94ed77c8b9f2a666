import MigrationMining.CodeModel.Basic
import MigrationMining.CodeModel.Failure
import MigrationMining.FileStore

/-! Facts in text files beside an archive: one with its invocations, one with its declarations. -/

namespace MigrationMining.Sidecar

def callsSuffix : String := ".calls"

def declarationsSuffix : String := ".decls"

def path (archive : Path) (suffix : String) : Path := archive.append suffix

/-- The lines that say something, without the white space around them. -/
def entries (text : String) : List (List Char) :=
  ((Text.lines text.toList).map Text.trim).filter fun line => !line.isEmpty

def invocation? (line : List Char) : Option (String × String) :=
  match Text.splitOnce '#' line with
  | some (caller, callee) =>
    if caller.isEmpty || callee.isEmpty then none else some (String.ofList caller, String.ofList callee)
  | none => none

/-- The call graph of the lines that are invocations, and how many are none. -/
def calls (text : String) : CallGraph × Nat :=
  let found := (entries text).map invocation?
  (.ofFacts (found.filterMap id), found.countP (·.isNone))

def declarations (text : String) : Namespace := .ofList ((entries text).map String.ofList) compare

/-- The text of a file beside an archive, `none` if there is no such file. -/
def text? (fs : FileStore) (archive : Path) (suffix : String) : Except ExtractFailure (Option String) :=
  match fs.readText (path archive suffix) with
  | .ok text => .ok (some text)
  | .error .missing => .ok none
  | .error e => .error (.file e)

/-- The model in the files beside an archive, one of which must be there. -/
def model (fs : FileStore) (archive : Path) : Except ExtractFailure CodeModel := do
  match ← text? fs archive callsSuffix, ← text? fs archive declarationsSuffix with
  | none, none => .error (.missingModel archive)
  | called, declared => .ok ⟨declarations (declared.getD ""), (calls (called.getD "")).1⟩

end MigrationMining.Sidecar
