import MigrationMining.Distinct
import MigrationMining.Proofs.AdaptedCallers
import MigrationMining.Proofs.StableSort
import MigrationMining.Proofs.StoredModel

/-! Passing facts on as a model sorts them: declarations become ascending and distinct, and invocations are sorted by their
callers, those of one caller staying in their order. -/

namespace MigrationMining

namespace CallGraph

theorem filter_eq_map_calleesOf (facts : List (String × String)) (caller : String) :
    facts.filter (·.1 = caller) = (calleesOf facts caller).map (caller, ·) := by
  have own (fact : String × String) (mem : fact ∈ facts.filter (·.1 = caller)) : (caller, fact.2) = fact := by
    rw [← of_decide_eq_true (List.mem_filter.1 mem).2]
  rw [calleesOf, List.map_map]
  exact ((List.map_congr_left own).trans (List.map_id _)).symm

theorem facts_ascending (g : CallGraph) : g.facts.Pairwise fun a b => StableSort.byKey Prod.fst a b := by
  refine List.pairwise_flatMap.2 ⟨fun e _ => ?_, g.toList_ascending.imp fun {d e} before => ?_⟩
  · refine List.pairwise_map.2 (List.pairwise_of_forall fun _ _ => ?_)
    simp [StableSort.byKey]
  · intro fact first fact' second
    obtain ⟨_, -, rfl⟩ := List.mem_map.1 first
    obtain ⟨_, -, rfl⟩ := List.mem_map.1 second
    exact StableSort.byKey_of_lt before

theorem facts_ofFacts (facts : List (String × String)) :
    (ofFacts facts).facts = facts.mergeSort (StableSort.byKey Prod.fst) := by
  refine StableSort.eq_of_filter_eq (facts_ascending _)
    (List.pairwise_mergeSort (StableSort.byKey_trans _) (StableSort.byKey_total _) _) fun caller => ?_
  rw [StableSort.filter_mergeSort_byKey, filter_eq_map_calleesOf, filter_eq_map_calleesOf facts, calleesOf_facts,
    invocations_ofFacts]

end CallGraph

theorem Namespace.toList_ofList (names : List String) :
    (Std.ExtTreeSet.ofList names compare : Namespace).toList = (distinct names).mergeSort (StableSort.byKey id) := by
  have ordered : (Std.ExtTreeSet.ofList names compare : Namespace).toList.Pairwise fun a b => compare a b = .lt :=
    Std.ExtTreeSet.ordered_toList
  have ascending := ordered.imp fun before => compareOfLessAndEq_eq_lt.1 before
  have sorted := List.pairwise_mergeSort (StableSort.byKey_trans id) (StableSort.byKey_total id) (distinct names)
  have nodup := ascending.imp fun before => String.ne_of_lt before
  have perm := (List.perm_ext_iff_of_nodup nodup (nodup_distinct names)).2 fun name => by
    rw [Std.ExtTreeSet.mem_toList, Std.ExtTreeSet.mem_ofList, mem_distinct, List.contains_iff_mem]
  refine List.Perm.eq_of_pairwise (fun a b _ _ le ge => ?_) (ascending.imp fun before => ?_) sorted
    (perm.trans (List.mergeSort_perm _ _).symm)
  · exact String.le_antisymm (of_decide_eq_true le) (of_decide_eq_true ge)
  · exact StableSort.byKey_of_lt before

/-- A model whose call graph is one of facts is got back from its facts. The facts of a model of facts are the distinct
declarations in ascending order and the invocations sorted by their callers, and passing them on again changes nothing. -/
theorem ModelFacts.converted_back_and_forth :
    (∀ m : CodeModel, (∃ facts, m.callGraph = .ofFacts facts) → m.facts.model = m) ∧
    ∀ f : ModelFacts, f.model.facts = ⟨(distinct f.declarations).mergeSort (StableSort.byKey id),
        f.invocations.mergeSort (StableSort.byKey Prod.fst)⟩ ∧
      f.model.facts.model.facts = f.model.facts := by
  refine ⟨fun m built => CodeModel.model_facts built, fun f => ⟨?_, ?_⟩⟩
  · rw [CodeModel.facts, model, Namespace.toList_ofList, CallGraph.facts_ofFacts]
  · rw [CodeModel.model_facts ⟨f.invocations, rfl⟩]

theorem ModelFacts.converted_of_mixed_callers :
    let f : ModelFacts := ⟨["n", "m", "n"], [("m", "z"), ("k", "y"), ("m", "a"), ("m", "z")]⟩
    (∃ facts, f.model.callGraph = .ofFacts facts) ∧ f.model.facts.model = f.model ∧
      f.model.facts = ⟨["m", "n"], [("k", "y"), ("m", "z"), ("m", "a"), ("m", "z")]⟩ := by
  intro f
  refine ⟨⟨f.invocations, rfl⟩, converted_back_and_forth.1 f.model ⟨f.invocations, rfl⟩, ?_⟩
  decide +kernel

end MigrationMining
