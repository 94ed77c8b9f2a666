import MigrationMining.CallGraph
import MigrationMining.DependencyDelta
import MigrationMining.Candidate

/-! Adaptations: callers of a client whose body changed along with a dependency. -/

namespace MigrationMining

/-- The two releases of a client, and the library whose change they are compared for. -/
structure Comparison where
  clientOld : Coordinate
  clientNew : Coordinate
  library : Project
  change : Change
  deriving DecidableEq

/-- One caller that was adapted, with a library member that shows it used the library. -/
structure Adaptation where
  comparison : Comparison
  caller : String
  callee : String
  before : List String
  after : List String
  deriving DecidableEq

abbrev Namespace := Std.ExtTreeSet String compare

namespace Adaptation

def usedCallees (g : CallGraph) (members : Namespace) : Namespace :=
  .ofList ((g.toList.flatMap (·.2)).filter members.contains) compare

/-- The graph of the release that has the library, and the members that it calls: for an update the new graph, if it calls
any. -/
def graphWithLibrary (change : Change) (old new : CallGraph) (members : Namespace) : CallGraph × Namespace :=
  match change with
  | .added => (new, usedCallees new members)
  | .removed => (old, usedCallees old members)
  | .updated =>
    let used := usedCallees new members
    if used.isEmpty then (old, usedCallees old members) else (new, used)

/-- The adaptation of one caller of the graph that has the library. It needs a call to a used member, calls in
both releases, and a difference between them. The body with the library gone is the later one. -/
def ofCaller? (comparison : Comparison) (old new : CallGraph) (used : Namespace)
    (caller : String) (callees : List String) : Option Adaptation :=
  match callees.find? used.contains with
  | none => none
  | some callee =>
    let inOld := old.invocations caller
    let inNew := new.invocations caller
    if inOld.isEmpty || inNew.isEmpty || inOld = inNew then none
    else
      let (before, after) := if comparison.change = .removed then (inNew, inOld) else (inOld, inNew)
      some { comparison, caller, callee, before, after }

/-- The adapted callers in ascending order; there is none if no member of the library is called. -/
def diff (comparison : Comparison) (old new : CallGraph) (members : Namespace) : List Adaptation :=
  let (graph, used) := graphWithLibrary comparison.change old new members
  if used.isEmpty then []
  else graph.toList.filterMap fun (caller, callees) => ofCaller? comparison old new used caller callees

def fieldNames : List String :=
  ["clientV1", "clientV2", "affectedLib", "caller", "callee", "changeType", "bodyBefore", "bodyAfter"]

def toJson (a : Adaptation) : Json :=
  .object [
    ("clientV1", .string a.comparison.clientOld.text),
    ("clientV2", .string a.comparison.clientNew.text),
    ("affectedLib", .string a.comparison.library.text),
    ("caller", .string a.caller),
    ("callee", .string a.callee),
    ("changeType", .string a.comparison.change.text),
    ("bodyBefore", .strings a.before),
    ("bodyAfter", .strings a.after)]

end Adaptation

/-- A change stands as its name, or as an object with that name and no value. -/
def Json.change? : Json → Option Change
  | .string s => Change.ofText? s
  | .object [(s, .null)] => Change.ofText? s
  | _ => none

def Adaptation.ofJson? (j : Json) : Option Adaptation :=
  match j.record? fieldNames with
  | some [some clientOld, some clientNew, some library, some caller, some callee, some change, some before, some after] => do
    return {
      comparison := {
        clientOld := ← clientOld.coordinate?
        clientNew := ← clientNew.coordinate?
        library := ← library.project?
        change := ← change.change? }
      caller := ← caller.string?
      callee := ← callee.string?
      before := ← before.list? Json.string?
      after := ← after.list? Json.string? }
  | _ => none

end MigrationMining
