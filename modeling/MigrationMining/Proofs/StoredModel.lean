import Mathlib.Data.List.Induction
import MigrationMining.CodeModel.Backend
import MigrationMining.Proofs.FileText
import MigrationMining.Proofs.StoredCandidates

/-! A code model is read back from the text that it is stored as, if its call graph is one of facts. -/

namespace MigrationMining

namespace CallGraph

def calleesOf (facts : List (String × String)) (caller : String) : List String :=
  (facts.filter (·.1 = caller)).map (·.2)

@[simp] theorem calleesOf_append (facts facts' : List (String × String)) (caller : String) :
    calleesOf (facts ++ facts') caller = calleesOf facts caller ++ calleesOf facts' caller := by
  simp [calleesOf]

theorem getElem?_push (g : CallGraph) (caller callee c : String) : (g.push caller callee).byCaller[c]? =
    if caller = c then some (g.invocations c ++ [callee]) else g.byCaller[c]? := by
  unfold push
  rw [Std.ExtTreeMap.getElem?_alter]
  by_cases same : caller = c
  · subst same
    simp [invocations]
  · have other : ¬ compare caller c = .eq := by simpa [Std.compare_eq_iff_eq] using same
    rw [if_neg other, if_neg same]

/-- A caller of a graph of facts has an entry exactly if it invokes something, and the entry has what it invokes. -/
theorem getElem?_ofFacts (facts : List (String × String)) (caller : String) : (ofFacts facts).byCaller[caller]? =
    if calleesOf facts caller = [] then none else some (calleesOf facts caller) := by
  induction facts using List.reverseRecOn with
  | nil =>
    have empty : (ofFacts []).byCaller = ∅ := rfl
    simp [empty, calleesOf]
  | append_singleton facts fact ih =>
    have pushed : ofFacts (facts ++ [fact]) = (ofFacts facts).push fact.1 fact.2 := by
      simp [ofFacts]
    rw [pushed, getElem?_push]
    by_cases same : fact.1 = caller
    · have one : calleesOf [fact] caller = [fact.2] := by simp [calleesOf, same]
      have before : (ofFacts facts).invocations caller = calleesOf facts caller := by
        unfold invocations
        rw [ih]
        split
        · next none => simp [none]
        · rfl
      simp [same, one, before]
    · have none : calleesOf [fact] caller = [] := by simp [calleesOf, same]
      simp [same, none, ih]

theorem invocations_ofFacts (facts : List (String × String)) (caller : String) :
    (ofFacts facts).invocations caller = calleesOf facts caller := by
  rw [invocations, getElem?_ofFacts]
  split
  · next none => simp [none]
  · rfl

theorem calleesOf_entries (entries : List (String × List String)) (caller : String) :
    calleesOf (entries.flatMap fun e => e.2.map (e.1, ·)) caller =
      entries.flatMap fun e => if e.1 = caller then e.2 else [] := by
  induction entries with
  | nil => simp [calleesOf]
  | cons e es ih =>
    have first : calleesOf (e.2.map (e.1, ·)) caller = if e.1 = caller then e.2 else [] := by
      by_cases same : e.1 = caller
      · simp [calleesOf, same, List.filter_map, Function.comp_def]
      · simp [calleesOf, same, List.filter_map, Function.comp_def]
    simp [first, ih]

theorem flatMap_of_mem_entries {entries : List (String × List String)} (distinct : entries.Pairwise fun d e => d.1 ≠ e.1)
    {caller : String} {callees : List String} (held : (caller, callees) ∈ entries) :
    (entries.flatMap fun e => if e.1 = caller then e.2 else []) = callees := by
  induction entries with
  | nil => cases held
  | cons e es ih =>
    obtain ⟨first, rest⟩ := List.pairwise_cons.1 distinct
    rcases List.mem_cons.1 held with rfl | held
    · have others : ∀ e ∈ es, (if e.1 = caller then e.2 else []) = [] := fun e mem => if_neg (first e mem).symm
      simp [List.flatMap_eq_nil_iff.2 others]
    · simp [first _ held, ih rest held]

theorem calleesOf_facts (g : CallGraph) (caller : String) : calleesOf g.facts caller = g.invocations caller := by
  have distinct : g.toList.Pairwise fun d e => d.1 ≠ e.1 := by
    refine Std.ExtTreeMap.distinct_keys_toList.imp fun {d e} other same => other ?_
    rw [same]
    exact Std.compare_self
  have whole : calleesOf g.facts caller = g.toList.flatMap fun e => if e.1 = caller then e.2 else [] :=
    calleesOf_entries g.toList caller
  rw [whole]
  unfold invocations
  cases at_caller : g.byCaller[caller]? with
  | some callees => exact flatMap_of_mem_entries distinct (Std.ExtTreeMap.mem_toList_iff_getElem?_eq_some.2 at_caller)
  | none =>
    refine List.flatMap_eq_nil_iff.2 fun e mem => if_neg ?_
    rintro rfl
    have held := Std.ExtTreeMap.mem_toList_iff_getElem?_eq_some.1 mem
    simp [at_caller] at held

theorem ofFacts_facts {g : CallGraph} (built : ∃ facts, g = ofFacts facts) : ofFacts g.facts = g := by
  obtain ⟨facts, rfl⟩ := built
  have same : (ofFacts (ofFacts facts).facts).byCaller = (ofFacts facts).byCaller := by
    refine Std.ExtTreeMap.ext_getElem? fun caller => ?_
    have kept : calleesOf (ofFacts facts).facts caller = calleesOf facts caller := by
      rw [calleesOf_facts, invocations_ofFacts]
    rw [getElem?_ofFacts, getElem?_ofFacts, kept]
  exact congrArg CallGraph.mk same

end CallGraph

theorem CodeModel.model_facts {m : CodeModel} (built : ∃ facts, m.callGraph = .ofFacts facts) : m.facts.model = m := by
  have declarations : (Std.ExtTreeSet.ofList m.declarations.toList compare : Namespace) = m.declarations := by
    refine Std.ExtTreeSet.ext_mem fun name => ?_
    simp [Std.ExtTreeSet.mem_ofList, Std.ExtTreeSet.mem_toList]
  show CodeModel.mk _ _ = m
  have graph : CallGraph.ofFacts m.facts.invocations = m.callGraph := CallGraph.ofFacts_facts built
  rw [graph]
  exact congrArg (CodeModel.mk · m.callGraph) declarations

namespace ModelFacts

theorem record?_toJson (f : ModelFacts) : f.toJson.record? fieldNames =
    some [some (.strings f.declarations), some (.array (f.invocations.map fun i => .strings [i.1, i.2]))] := by
  simp [toJson, Json.record?, fieldNames]

theorem ofJson?_toJson (f : ModelFacts) : ofJson? f.toJson = some f := by
  have declarations : (Json.strings f.declarations).list? Json.string? = some f.declarations :=
    Json.list?_map fun _ _ => rfl
  have invocations : (Json.array (f.invocations.map fun i => .strings [i.1, i.2])).list? Json.invocation? =
      some f.invocations := Json.list?_map fun _ _ => rfl
  rw [ofJson?, record?_toJson]
  simp [declarations, invocations]

theorem exact_toJson (f : ModelFacts) : f.toJson.Exact := by
  refine ⟨Json.exact_strings _, Json.exactItems_iff.2 fun j stored => ?_, trivial⟩
  obtain ⟨i, -, rfl⟩ := List.mem_map.1 stored
  exact Json.exact_strings _

def stored (f : ModelFacts) : ByteArray := f.toJson.compact.toUTF8

theorem parse_stored (f : ModelFacts) : parse f.stored = some f := by
  unfold parse stored
  rw [Text.fromUTF8?_toUTF8]
  simp [Json.read_compact f.exact_toJson, ofJson?_toJson]

end ModelFacts

end MigrationMining
