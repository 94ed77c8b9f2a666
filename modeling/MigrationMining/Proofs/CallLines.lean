import MigrationMining.CodeModel.Focus
import MigrationMining.Proofs.FactOrder
import MigrationMining.Proofs.Pieces

/-! The invocations that the lines of a text tell: those of two texts with a line feed between them are the ones of the
first and then the ones of the second, every line that is not blank counts as an invocation or as skipped, and the lines
of facts tell these facts. -/

namespace MigrationMining

namespace CallGraph

theorem hasCaller_ofFacts {facts : List (String × String)} {caller : String} :
    (ofFacts facts).hasCaller caller ↔ calleesOf facts caller ≠ [] := by
  rw [hasCaller, Std.ExtTreeMap.contains_eq_isSome_getElem?, getElem?_ofFacts]
  split <;> simp_all

theorem invocationCount_eq (g : CallGraph) : g.invocationCount = g.facts.length := by
  simp [invocationCount, facts, List.length_flatMap, List.sum]

theorem invocationCount_ofFacts (facts : List (String × String)) : (ofFacts facts).invocationCount = facts.length := by
  rw [invocationCount_eq, facts_ofFacts, List.length_mergeSort]

end CallGraph

namespace Sidecar

theorem entries_eq (text : String) : entries text =
    ((Text.splitOn '\n' text.toList).map Text.trim).filter fun line => !line.isEmpty :=
  Text.filter_map_trim_lines text.toList

theorem entries_append (s t : String) : entries (s ++ "\n" ++ t) = entries s ++ entries t := by
  simp [entries_eq, Text.splitOn_append_cons]

theorem length_entries (text : String) :
    (entries text).length = (Text.lines text.toList).countP fun line => !Text.allBlank line := by
  have filled (line : List Char) : (!(Text.trim line).isEmpty) = !Text.allBlank line := by
    rw [Bool.not_inj_iff, Bool.eq_iff_iff, List.isEmpty_iff, Text.trim_eq_nil_iff]
  rw [entries, ← List.countP_eq_length_filter, List.countP_map]
  exact List.countP_congr fun line _ => by rw [Function.comp_apply, filled]

def told (text : String) : List (String × String) := (entries text).filterMap invocation?

/-- How many lines of a text say something else than an invocation. -/
def untold (text : String) : Nat := (entries text).countP fun line => (invocation? line).isNone

theorem calls_eq (text : String) : calls text = (.ofFacts (told text), untold text) := by
  simp [calls, told, untold, List.filterMap_map, List.countP_map, Function.comp_def]

theorem told_append (s t : String) : told (s ++ "\n" ++ t) = told s ++ told t := by
  rw [told, entries_append, List.filterMap_append, told, told]

theorem untold_append (s t : String) : untold (s ++ "\n" ++ t) = untold s + untold t := by
  rw [untold, entries_append, List.countP_append, untold, untold]

theorem length_told_add (text : String) : (told text).length + untold text = (entries text).length := by
  have others : untold text = (entries text).countP fun line => ¬ (invocation? line).isSome :=
    List.countP_congr fun line _ => by simp
  rw [told, List.length_filterMap_eq_countP, others]
  exact (List.length_eq_countP_add_countP _).symm

/-- A caller that a line can tell: it is there, and neither a mark nor the end of the line nor white space hides where it
begins and ends. -/
structure CallerText (caller : String) : Prop where
  filled : caller ≠ ""
  unmarked : '#' ∉ caller.toList
  oneLine : '\n' ∉ caller.toList
  begins : ∀ c ∈ caller.toList.head?, ¬ Text.isBlank c

/-- A callee that a line can tell. It may have marks of its own. -/
structure CalleeText (callee : String) : Prop where
  filled : callee ≠ ""
  oneLine : '\n' ∉ callee.toList
  ends : ∀ c ∈ callee.toList.getLast?, ¬ Text.isBlank c

instance (caller : String) : Decidable (CallerText caller) :=
  decidable_of_iff (caller ≠ "" ∧ '#' ∉ caller.toList ∧ '\n' ∉ caller.toList ∧ caller.toList.head?.all (!Text.isBlank ·))
    ⟨fun ⟨filled, unmarked, oneLine, begins⟩ => ⟨filled, unmarked, oneLine, by simpa [Option.all_eq_true] using begins⟩,
      fun text => ⟨text.filled, text.unmarked, text.oneLine, by simpa [Option.all_eq_true] using text.begins⟩⟩

instance (callee : String) : Decidable (CalleeText callee) :=
  decidable_of_iff (callee ≠ "" ∧ '\n' ∉ callee.toList ∧ callee.toList.getLast?.all (!Text.isBlank ·))
    ⟨fun ⟨filled, oneLine, ends⟩ => ⟨filled, oneLine, by simpa [Option.all_eq_true] using ends⟩,
      fun text => ⟨text.filled, text.oneLine, by simpa [Option.all_eq_true] using text.ends⟩⟩

def factLine (fact : String × String) : String := fact.1 ++ "#" ++ fact.2

variable {fact : String × String} {facts : List (String × String)}

theorem newline_notMem_factLine (caller : CallerText fact.1) (callee : CalleeText fact.2) :
    '\n' ∉ (factLine fact).toList := by
  simp [factLine, caller.oneLine, callee.oneLine]

theorem toList_factLine (fact : String × String) : (factLine fact).toList = fact.1.toList ++ '#' :: fact.2.toList := by
  simp [factLine]

theorem trim_factLine (caller : CallerText fact.1) (callee : CalleeText fact.2) :
    Text.trim (factLine fact).toList = (factLine fact).toList := by
  have line : (factLine fact).toList = Text.joinWith ['#'] (fact.1.toList :: ([] ++ [fact.2.toList])) := by
    simp [factLine, Text.joinWith]
  rw [line]
  exact Text.trim_of_trimmed ((Text.trimmed_joinWith_iff (by simpa using caller.filled) (by simpa using callee.filled) []).2
    ⟨caller.begins, callee.ends⟩)

theorem invocation?_factLine (caller : CallerText fact.1) (callee : CalleeText fact.2) :
    invocation? (factLine fact).toList = some fact := by
  rw [toList_factLine, invocation?, Text.splitOnce_append caller.unmarked]
  simp [caller.filled, callee.filled]

theorem calls_of_splitOn {text : String} (blank : List (List Char))
    (tellable : ∀ fact ∈ facts, CallerText fact.1 ∧ CalleeText fact.2)
    (cut : Text.splitOn '\n' text.toList = facts.map (fun fact => (factLine fact).toList) ++ blank)
    (empty : ∀ line ∈ blank, line = []) : calls text = (.ofFacts facts, 0) := by
  have trimmed (fact : String × String) (mem : fact ∈ facts) : Text.trim (factLine fact).toList = (factLine fact).toList :=
    trim_factLine (tellable fact mem).1 (tellable fact mem).2
  have nothing : (blank.map Text.trim).filter (fun line => !line.isEmpty) = [] := by
    refine List.filter_eq_nil_iff.2 fun line mem => ?_
    obtain ⟨piece, here, rfl⟩ := List.mem_map.1 mem
    simp [empty piece here]
  have kept : entries text = facts.map fun fact => (factLine fact).toList := by
    rw [entries_eq, cut, List.map_append, List.filter_append, nothing, List.append_nil, List.map_map,
      List.map_congr_left (f := Text.trim ∘ _) (g := fun fact => (factLine fact).toList) trimmed]
    refine List.filter_eq_self.2 fun line mem => ?_
    obtain ⟨fact, -, rfl⟩ := List.mem_map.1 mem
    simp [toList_factLine]
  have read : (entries text).map invocation? = facts.map some := by
    rw [kept, List.map_map]
    exact List.map_congr_left fun fact mem => invocation?_factLine (tellable fact mem).1 (tellable fact mem).2
  simp only [calls, read]
  simp [List.filterMap_map, List.countP_map, Function.comp_def]

theorem newline_notMem_of_mem_lines (tellable : ∀ fact ∈ facts, CallerText fact.1 ∧ CalleeText fact.2) :
    ∀ line ∈ facts.map (fun fact => (factLine fact).toList), '\n' ∉ line := by
  intro line mem
  obtain ⟨fact, here, rfl⟩ := List.mem_map.1 mem
  exact newline_notMem_factLine (tellable fact here).1 (tellable fact here).2

theorem calls_join (tellable : ∀ fact ∈ facts, CallerText fact.1 ∧ CalleeText fact.2) :
    calls (String.join (facts.map fun fact => factLine fact ++ "\n")) = (.ofFacts facts, 0) := by
  refine calls_of_splitOn [[]] tellable ?_ (by simp)
  rw [← Text.splitOn_flatMap_concat (newline_notMem_of_mem_lines tellable)]
  simp [String.toList_join, List.flatMap_map]

theorem calls_intercalate (tellable : ∀ fact ∈ facts, CallerText fact.1 ∧ CalleeText fact.2) :
    calls ("\n".intercalate (facts.map factLine)) = (.ofFacts facts, 0) := by
  by_cases none : facts = []
  · exact calls_of_splitOn [[]] tellable (by simp [none, Text.splitOn]) (by simp)
  · refine calls_of_splitOn [] tellable ?_ (by simp)
    rw [String.toList_intercalate, List.map_map, List.append_nil, ← Text.joinWith_eq_intercalate]
    exact Text.splitOn_joinWith (by simpa using none) (newline_notMem_of_mem_lines tellable)

/-- Texts with a line feed between them tell each caller's invocations in turn, and what is skipped adds up. Every line of
a text that is not blank is told or skipped. The lines of facts, with a line feed after each or between them, tell just
these facts. -/
theorem calls_line_by_line :
    (∀ s t caller, (calls (s ++ "\n" ++ t)).1.invocations caller =
        (calls s).1.invocations caller ++ (calls t).1.invocations caller ∧
      ((calls (s ++ "\n" ++ t)).1.hasCaller caller ↔ (calls s).1.hasCaller caller ∨ (calls t).1.hasCaller caller) ∧
      (calls (s ++ "\n" ++ t)).2 = (calls s).2 + (calls t).2) ∧
    (∀ text, (calls text).1.invocationCount + (calls text).2 =
      (Text.lines text.toList).countP fun line => !Text.allBlank line) ∧
    ∀ facts, (∀ fact ∈ facts, CallerText fact.1 ∧ CalleeText fact.2) →
      calls (String.join (facts.map fun fact => factLine fact ++ "\n")) = (.ofFacts facts, 0) ∧
      calls ("\n".intercalate (facts.map factLine)) = (.ofFacts facts, 0) := by
  refine ⟨fun s t caller => ?_, fun text => ?_, fun facts tellable => ⟨calls_join tellable, calls_intercalate tellable⟩⟩
  · simp only [calls_eq, told_append, untold_append, CallGraph.invocations_ofFacts, CallGraph.hasCaller_ofFacts,
      CallGraph.calleesOf_append, ne_eq, List.append_eq_nil_iff, not_and_or, and_self]
  · rw [calls_eq, CallGraph.invocationCount_ofFacts, length_told_add, length_entries]

theorem calls_line_by_line_of_marked :
    let facts := [("m ", "a#b"), ("k", " c"), ("m ", "a#b")]
    (∀ fact ∈ facts, CallerText fact.1 ∧ CalleeText fact.2) ∧
    "\n".intercalate (facts.map factLine) = "m #a#b\nk# c\nm #a#b" ∧
    calls "m #a#b\nk# c\nm #a#b" = (.ofFacts facts, 0) := by
  intro facts
  have tellable : ∀ fact ∈ facts, CallerText fact.1 ∧ CalleeText fact.2 := by decide +kernel
  have text : "\n".intercalate (facts.map factLine) = "m #a#b\nk# c\nm #a#b" := by decide +kernel
  exact ⟨tellable, text, text ▸ (calls_line_by_line.2.2 facts tellable).2⟩

end Sidecar
end MigrationMining
