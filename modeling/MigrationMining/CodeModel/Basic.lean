import MigrationMining.Adaptation

/-! Code models: what an archive declares and what its members invoke, and the form in which models are stored. -/

namespace MigrationMining

structure CodeModel where
  declarations : Namespace
  callGraph : CallGraph

instance : Inhabited CodeModel := ⟨⟨∅, ∅⟩⟩

/-- A model as it is passed on and stored: declarations, and pairs of a caller and a callee. -/
structure ModelFacts where
  declarations : List String
  invocations : List (String × String)
  deriving DecidableEq

namespace ModelFacts

def model (f : ModelFacts) : CodeModel := ⟨.ofList f.declarations compare, .ofFacts f.invocations⟩

def fieldNames : List String := ["declarations", "invocations"]

def toJson (f : ModelFacts) : Json :=
  .object [
    ("declarations", .strings f.declarations),
    ("invocations", .array (f.invocations.map fun (caller, callee) => .strings [caller, callee]))]

end ModelFacts

def CodeModel.facts (m : CodeModel) : ModelFacts := ⟨m.declarations.toList, m.callGraph.facts⟩

def Json.invocation? (j : Json) : Option (String × String) :=
  match j with
  | .array [.string caller, .string callee] => some (caller, callee)
  | _ => none

def ModelFacts.ofJson? (j : Json) : Option ModelFacts :=
  match j.record? fieldNames with
  | some [declarations, invocations] => do
    return {
      declarations := ← (declarations.getD (.array [])).list? Json.string?
      invocations := ← (invocations.getD (.array [])).list? Json.invocation? }
  | _ => none

end MigrationMining
