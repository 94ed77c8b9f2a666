import Std.Data.ExtTreeMap

/-! Call graphs: for each caller, what it invokes, in order and with repetitions. -/

namespace MigrationMining

structure CallGraph where
  byCaller : Std.ExtTreeMap String (List String) compare

namespace CallGraph

instance : EmptyCollection CallGraph := ⟨⟨∅⟩⟩

instance : Inhabited CallGraph := ⟨∅⟩

def push (g : CallGraph) (caller callee : String) : CallGraph :=
  ⟨g.byCaller.alter caller fun callees => some (callees.getD [] ++ [callee])⟩

def ofFacts (facts : List (String × String)) : CallGraph :=
  facts.foldl (fun g (caller, callee) => g.push caller callee) ∅

def invocations (g : CallGraph) (caller : String) : List String := (g.byCaller[caller]?).getD []

def hasCaller (g : CallGraph) (caller : String) : Bool := g.byCaller.contains caller

def toList (g : CallGraph) : List (String × List String) := g.byCaller.toList

def callers (g : CallGraph) : List String := g.byCaller.keys

def facts (g : CallGraph) : List (String × String) :=
  g.toList.flatMap fun (caller, callees) => callees.map (caller, ·)

def callerCount (g : CallGraph) : Nat := g.byCaller.size

def invocationCount (g : CallGraph) : Nat := (g.toList.map (·.2.length)).foldr (· + ·) 0

def isEmpty (g : CallGraph) : Bool := g.byCaller.isEmpty

end CallGraph

end MigrationMining
