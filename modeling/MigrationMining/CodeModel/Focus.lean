import MigrationMining.CallGraph
import MigrationMining.CodeModel.Sidecar
import MigrationMining.Text.Substitution

/-! Focus files: the callers of an archive that call much outside it. -/

namespace MigrationMining.Focus

/-- A member's name without the bars around it and without the scheme before it. -/
def stripChars (id : List Char) : List Char :=
  Text.replace "java+method:///".toList [] (Text.replace "java+constructor:///".toList [] (id.filter (· ≠ '|')))

def stripId (id : String) : String := String.ofList (stripChars id.toList)

/-- The invocations that do not lead to a caller of the same graph. -/
def externalCalls (g : CallGraph) (callees : List String) : List String :=
  callees.filter fun callee => !g.hasCaller callee

def callersOfInterest (g : CallGraph) (threshold : Nat) : List String :=
  (g.toList.filter fun (_, callees) => threshold < (externalCalls g callees).length).map (·.1)

def line (s : String) : List Char := s.toList ++ ['\n']

def callText (g : CallGraph) (threshold : Nat) : String :=
  String.ofList ((callersOfInterest g threshold).flatMap fun caller =>
    (g.invocations caller).flatMap fun callee => line (stripId caller ++ "#" ++ stripId callee))

def markdownText (g : CallGraph) (threshold : Nat) : String :=
  String.ofList ((callersOfInterest g threshold).flatMap fun caller => line (stripId caller))

structure FocusFiles where
  calls : Path
  markdown : Path
  callers : Nat
  deriving DecidableEq

def write (fs : FileStore) (archive : Path) (g : CallGraph) (threshold : Nat) :
    Except FileFailure FocusFiles × FileStore :=
  let files : FocusFiles := {
    calls := Sidecar.path archive ".focus"
    markdown := Sidecar.path archive ".md.focus"
    callers := (Text.lines (markdownText g threshold).toList).length }
  match fs.writeBytes files.calls (callText g threshold).toUTF8 with
  | .error e => (.error e, fs)
  | .ok fs =>
    match fs.writeBytes files.markdown (markdownText g threshold).toUTF8 with
    | .error e => (.error e, fs)
    | .ok fs => (.ok files, fs)

end MigrationMining.Focus
