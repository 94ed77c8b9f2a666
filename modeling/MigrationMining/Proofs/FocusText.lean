import MigrationMining.Proofs.CallLines

/-! The text of a focus file is read as the graph of the stripped invocations of its callers. -/

namespace MigrationMining
namespace Focus

variable {g : CallGraph} {threshold : Nat}

/-- The callers with more than `threshold` invocations of what is no caller of the graph, repeated ones counted, each with
all that it invokes. -/
def entriesOfInterest (g : CallGraph) (threshold : Nat) : List (String × List String) :=
  g.toList.filter fun e => threshold < e.2.countP (· ∉ g.callers)

/-- The invocations of these callers, in their order and under stripped names. -/
def factsOfInterest (g : CallGraph) (threshold : Nat) : List (String × String) :=
  (entriesOfInterest g threshold).flatMap fun e => e.2.map fun callee => (stripId e.1, stripId callee)

theorem length_externalCalls (g : CallGraph) (callees : List String) :
    (externalCalls g callees).length = callees.countP (· ∉ g.callers) := by
  rw [externalCalls, ← List.countP_eq_length_filter]
  refine List.countP_congr fun callee _ => ?_
  simp [CallGraph.hasCaller, CallGraph.callers, ← Std.ExtTreeMap.contains_iff_mem]

theorem callersOfInterest_eq (g : CallGraph) (threshold : Nat) :
    callersOfInterest g threshold = (entriesOfInterest g threshold).map (·.1) := by
  simp only [callersOfInterest, entriesOfInterest, length_externalCalls]

theorem invocations_of_mem_entries {e : String × List String} (mem : e ∈ entriesOfInterest g threshold) :
    g.invocations e.1 = e.2 := CallGraph.invocations_of_mem_toList (List.mem_of_mem_filter mem)

theorem callText_eq (g : CallGraph) (threshold : Nat) : callText g threshold =
    String.join ((factsOfInterest g threshold).map fun fact => Sidecar.factLine fact ++ "\n") := by
  have own : ∀ e ∈ entriesOfInterest g threshold,
      ((g.invocations e.1).flatMap fun callee => line (stripId e.1 ++ "#" ++ stripId callee)) =
        e.2.flatMap fun callee => (Sidecar.factLine (stripId e.1, stripId callee) ++ "\n").toList := by
    intro e mem
    rw [invocations_of_mem_entries mem]
    simp [line, Sidecar.factLine]
  rw [callText, ← String.toList_inj, String.toList_ofList, callersOfInterest_eq, List.flatMap_map, List.flatMap_congr own,
    String.toList_join, factsOfInterest]
  simp [List.flatMap_map, List.flatMap_assoc]

/-- From the text of a focus file just the facts of interest are read, if every stripped name in it can be told by a line. -/
theorem calls_callText (tellable : ∀ caller ∈ callersOfInterest g threshold, Sidecar.CallerText (stripId caller) ∧
      ∀ callee ∈ g.invocations caller, Sidecar.CalleeText (stripId callee)) :
    Sidecar.calls (callText g threshold) = (.ofFacts (factsOfInterest g threshold), 0) := by
  rw [callText_eq]
  refine Sidecar.calls_join fun fact mem => ?_
  obtain ⟨e, held, mem⟩ := List.mem_flatMap.1 mem
  obtain ⟨callee, invoked, rfl⟩ := List.mem_map.1 mem
  have interesting : e.1 ∈ callersOfInterest g threshold := by
    rw [callersOfInterest_eq]
    exact List.mem_map_of_mem held
  obtain ⟨caller, callees⟩ := tellable e.1 interesting
  exact ⟨caller, callees callee (by rwa [invocations_of_mem_entries held])⟩

/-- Two callers that are one when they are stripped: the one with a plain name stands first, and what leads to the other one
is kept, though it does not count. A third caller makes one invocation only. -/
theorem calls_callText_of_mergedCallers :
    let g := CallGraph.ofFacts [("|java+method:///p/A|", "|java+method:///q/X#x|"), ("|java+method:///p/A|", "q/Y"),
      ("p/A", "q/X"), ("p/A", "|java+method:///p/A|"), ("p/A", "q/X"), ("p/B", "q/X")]
    (∀ caller ∈ callersOfInterest g 1, Sidecar.CallerText (stripId caller) ∧
      ∀ callee ∈ g.invocations caller, Sidecar.CalleeText (stripId callee)) ∧
    Sidecar.calls (callText g 1) =
      (.ofFacts [("p/A", "q/X"), ("p/A", "p/A"), ("p/A", "q/X"), ("p/A", "q/X#x"), ("p/A", "q/Y")], 0) := by
  intro g
  have tellable : ∀ caller ∈ callersOfInterest g 1, Sidecar.CallerText (stripId caller) ∧
      ∀ callee ∈ g.invocations caller, Sidecar.CalleeText (stripId callee) := by decide +kernel
  have facts : factsOfInterest g 1 =
      [("p/A", "q/X"), ("p/A", "p/A"), ("p/A", "q/X"), ("p/A", "q/X#x"), ("p/A", "q/Y")] := by decide +kernel
  exact ⟨tellable, facts ▸ calls_callText tellable⟩

end Focus
end MigrationMining
