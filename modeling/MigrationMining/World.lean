import MigrationMining.CodeModel.Cache
import MigrationMining.Diagnostic
import MigrationMining.FileStore
import MigrationMining.Web.Response

/-! What mining reads and changes: the files, the web, the code models in memory, and the diagnostics reported. -/

namespace MigrationMining

structure World where
  files : FileStore := {}
  web : Web := {}
  log : DiagnosticLog := []
  models : ModelCache := {}
  /-- How many downloads were begun, and the number of the process: they make the names of scratch files differ. -/
  downloads : Nat := 0
  process : Nat := 1

namespace World

def report (d : Diagnostic) : StateM World Unit := modify fun w => { w with log := w.log ++ [d] }

def ask (request : Request) : StateM World Response := fun w =>
  let (response, web) := w.web.ask request
  (response, { w with web })

def change (f : FileStore → Except FileFailure FileStore) : StateM World (Except FileFailure Unit) := fun w =>
  match f w.files with
  | .ok files => (.ok (), { w with files })
  | .error e => (.error e, w)

/-- Changes the files in several steps; those before one that fails are not undone. -/
def changeInSteps (f : FileStore → Except FileStore.Interrupted FileStore) : StateM World (Except FileFailure Unit) :=
  fun w => (((f w.files).map fun _ => ()).mapError (·.cause), { w with files := FileStore.treeAfter (f w.files) })

/-- A value that was found along with diagnostics, which are reported. -/
def reporting {α : Type} (found : FileStore → α × DiagnosticLog) : StateM World α := fun w =>
  let (a, log) := found w.files
  (a, { w with log := w.log ++ log })

def extracting {α : Type} (m : StateM ModelStore α) : StateM World α := fun w =>
  let (a, store) := m ⟨w.files, w.models⟩
  (a, { w with files := store.files, models := store.cache })

end World

end MigrationMining
