import Mathlib.Data.List.Basic
import Mathlib.Data.List.Find
import MigrationMining.Adaptation

/-! Which callers of a client are adapted: exactly those of the release that has the library which call into it, call
something in both releases, and do not make the same calls in both. -/

namespace MigrationMining

namespace CallGraph

variable {g : CallGraph} {members : Namespace} {caller : String}

def CallsInto (g : CallGraph) (members : Namespace) : Prop :=
  ∃ caller, ∃ callee ∈ g.invocations caller, callee ∈ members

theorem invocations_of_mem_toList {callees : List String} (entry : (caller, callees) ∈ g.toList) :
    g.invocations caller = callees := by
  have held : g.byCaller[caller]? = some callees := Std.ExtTreeMap.mem_toList_iff_getElem?_eq_some.1 entry
  rw [invocations, held, Option.getD_some]

theorem mem_toList_of_invocations (invokes : g.invocations caller ≠ []) :
    (caller, g.invocations caller) ∈ g.toList := by
  refine Std.ExtTreeMap.mem_toList_iff_getElem?_eq_some.2 ?_
  unfold invocations at invokes ⊢
  cases held : g.byCaller[caller]? with
  | none => simp [held] at invokes
  | some callees => rfl

theorem toList_ascending (g : CallGraph) : g.toList.Pairwise fun d e => d.1 < e.1 := by
  have ascending : g.byCaller.toList.Pairwise fun d e => compare d.1 e.1 = .lt := Std.ExtTreeMap.ordered_keys_toList
  exact ascending.imp fun before => compareOfLessAndEq_eq_lt.1 before

theorem mem_usedCallees {callee : String} : callee ∈ Adaptation.usedCallees g members ↔
    (∃ caller, callee ∈ g.invocations caller) ∧ callee ∈ members := by
  rw [Adaptation.usedCallees, Std.ExtTreeSet.mem_ofList, List.contains_iff_mem, List.mem_filter,
    Std.ExtTreeSet.contains_iff_mem, List.mem_flatMap]
  refine and_congr_left fun _ => ⟨?_, ?_⟩
  · rintro ⟨⟨caller, callees⟩, entry, invoked⟩
    exact ⟨caller, (invocations_of_mem_toList entry).symm ▸ invoked⟩
  · rintro ⟨caller, invoked⟩
    exact ⟨_, mem_toList_of_invocations (List.ne_nil_of_mem invoked), invoked⟩

theorem usedCallees_isEmpty_iff : (Adaptation.usedCallees g members).isEmpty ↔ ¬ g.CallsInto members := by
  rw [Std.ExtTreeSet.isEmpty_iff]
  constructor
  · rintro empty ⟨caller, callee, invoked, member⟩
    exact Std.ExtTreeSet.not_mem_empty (empty ▸ mem_usedCallees.2 ⟨⟨caller, invoked⟩, member⟩)
  · refine fun unused => Std.ExtTreeSet.ext_mem fun callee => iff_of_false (fun used => ?_) Std.ExtTreeSet.not_mem_empty
    obtain ⟨⟨caller, invoked⟩, member⟩ := mem_usedCallees.1 used
    exact unused ⟨caller, callee, invoked, member⟩

theorem find?_usedCallees {callees : List String} (entry : (caller, callees) ∈ g.toList) :
    callees.find? (Adaptation.usedCallees g members).contains = callees.find? members.contains := by
  refine List.find?_congr fun callee invoked => ?_
  rw [Bool.eq_iff_iff, Std.ExtTreeSet.contains_iff_mem, Std.ExtTreeSet.contains_iff_mem, mem_usedCallees]
  exact and_iff_right ⟨caller, (invocations_of_mem_toList entry).symm ▸ invoked⟩

end CallGraph

/-- The graph of the release that has the library. For an update it is the new one, unless that does not call into the
library. -/
inductive Change.GraphOf (old new : CallGraph) (members : Namespace) : Change → CallGraph → Prop where
  | added : GraphOf old new members .added new
  | removed : GraphOf old new members .removed old
  | updated (used : new.CallsInto members) : GraphOf old new members .updated new
  | fallenBack (unused : ¬ new.CallsInto members) : GraphOf old new members .updated old

def Namespace.IsFirstOf (members : Namespace) (callee : String) (callees : List String) : Prop :=
  callee ∈ members ∧ ∃ before after, callees = before ++ callee :: after ∧ ∀ other ∈ before, other ∉ members

namespace Adaptation

variable {c : Comparison} {old new g : CallGraph} {members : Namespace} {a : Adaptation}

theorem graphWithLibrary_of_used (used : new.CallsInto members) :
    graphWithLibrary .updated old new members = (new, usedCallees new members) :=
  if_neg fun empty => CallGraph.usedCallees_isEmpty_iff.1 empty used

theorem graphWithLibrary_of_unused (unused : ¬ new.CallsInto members) :
    graphWithLibrary .updated old new members = (old, usedCallees old members) :=
  if_pos (CallGraph.usedCallees_isEmpty_iff.2 unused)

theorem graphWithLibrary_snd (change : Change) (old new : CallGraph) (members : Namespace) :
    (graphWithLibrary change old new members).2 = usedCallees (graphWithLibrary change old new members).1 members := by
  cases change with
  | added => rfl
  | removed => rfl
  | updated =>
    by_cases used : new.CallsInto members
    · rw [graphWithLibrary_of_used used]
    · rw [graphWithLibrary_of_unused used]

theorem graphOf_graphWithLibrary (change : Change) (old new : CallGraph) (members : Namespace) :
    change.GraphOf old new members (graphWithLibrary change old new members).1 := by
  cases change with
  | added => exact .added
  | removed => exact .removed
  | updated =>
    by_cases used : new.CallsInto members
    · rw [graphWithLibrary_of_used used]
      exact .updated used
    · rw [graphWithLibrary_of_unused used]
      exact .fallenBack used

theorem ofCaller?_congr {members' : Namespace} {caller : String} {callees : List String}
    (first : callees.find? members.contains = callees.find? members'.contains) :
    ofCaller? c old new members caller callees = ofCaller? c old new members' caller callees := by
  unfold ofCaller?
  rw [first]

/-- A diff goes through the callers one by one: the members that the graph uses do for the whole library, and a graph that
uses none has no caller with an adaptation. -/
theorem diff_eq (c : Comparison) (old new : CallGraph) (members : Namespace) : diff c old new members =
    (graphWithLibrary c.change old new members).1.toList.filterMap fun entry =>
      ofCaller? c old new members entry.1 entry.2 := by
  obtain ⟨g, found⟩ : ∃ g, graphWithLibrary c.change old new members = (g, usedCallees g members) :=
    ⟨_, Prod.ext rfl (graphWithLibrary_snd c.change old new members)⟩
  unfold diff
  rw [found]
  have each : ∀ entry ∈ g.toList, ofCaller? c old new (usedCallees g members) entry.1 entry.2 =
      ofCaller? c old new members entry.1 entry.2 := fun _ listed =>
    ofCaller?_congr (CallGraph.find?_usedCallees listed)
  dsimp only
  split
  · next empty =>
    refine (List.filterMap_eq_nil_iff.2 fun entry listed => ?_).symm
    have none : entry.2.find? (usedCallees g members).contains = none := by
      simp [Std.ExtTreeSet.isEmpty_iff.1 empty]
    rw [← each entry listed, ofCaller?, none]
  · exact List.filterMap_congr each

theorem find?_eq_some_iff_isFirstOf {callees : List String} {callee : String} :
    callees.find? members.contains = some callee ↔ members.IsFirstOf callee callees := by
  have absent (other : String) : (!members.contains other) = true ↔ other ∉ members := by
    rw [← Std.ExtTreeSet.contains_iff_mem, Bool.not_eq_true', Bool.not_eq_true]
  simp only [List.find?_eq_some_iff_append, Namespace.IsFirstOf, Std.ExtTreeSet.contains_iff_mem, absent,
    exists_and_right]

/-- The caller calls into the library in the graph that has it, calls something in both graphs, and its calls are not
the same ones in the same order. -/
structure Adapted (g old new : CallGraph) (members : Namespace) (caller : String) : Prop where
  usesLibrary : ∃ callee ∈ g.invocations caller, callee ∈ members
  callsInOld : old.invocations caller ≠ []
  callsInNew : new.invocations caller ≠ []
  changed : old.invocations caller ≠ new.invocations caller

/-- The calls of a caller before and after a change of the library. Without the library is after, also if that is the
old release. -/
def bodies (change : Change) (old new : CallGraph) (caller : String) : List String × List String :=
  match change with
  | .removed => (new.invocations caller, old.invocations caller)
  | .added | .updated => (old.invocations caller, new.invocations caller)

/-- The adaptation says what the graphs say of its caller. -/
structure ReadFrom (c : Comparison) (g old new : CallGraph) (members : Namespace) (a : Adaptation) : Prop where
  comparison : a.comparison = c
  callee : members.IsFirstOf a.callee (g.invocations a.caller)
  bodies : (a.before, a.after) = bodies c.change old new a.caller

theorem ofCaller?_of_first {caller callee : String} {callees : List String}
    (first : callees.find? members.contains = some callee) : ofCaller? c old new members caller callees =
      if old.invocations caller = [] ∨ new.invocations caller = [] ∨ old.invocations caller = new.invocations caller
        then none
      else some ⟨c, caller, callee, (bodies c.change old new caller).1, (bodies c.change old new caller).2⟩ := by
  have empty (callees : List String) : callees.isEmpty = true ↔ callees = [] := List.isEmpty_iff
  unfold ofCaller?
  rw [first]
  simp only [Bool.or_eq_true, empty, decide_eq_true_eq, or_assoc]
  split
  · rfl
  · cases change : c.change <;> simp [bodies]

theorem ofCaller?_eq_some_iff {caller : String} :
    ofCaller? c old new members caller (g.invocations caller) = some a ↔
      a.caller = caller ∧ Adapted g old new members caller ∧ ReadFrom c g old new members a := by
  cases found : (g.invocations caller).find? members.contains with
  | none =>
    refine ⟨fun h => by simp [ofCaller?, found] at h, fun ⟨_, adapted, _⟩ => ?_⟩
    obtain ⟨callee, invoked, member⟩ := adapted.usesLibrary
    exact absurd (Std.ExtTreeSet.contains_iff_mem.2 member) (by simpa using List.find?_eq_none.1 found callee invoked)
  | some callee =>
    have first := find?_eq_some_iff_isFirstOf.1 found
    rw [ofCaller?_of_first found]
    constructor
    · intro h
      obtain ⟨differ, built⟩ := Option.ite_none_left_eq_some.1 h
      obtain rfl := Option.some.inj built
      rw [not_or, not_or] at differ
      have invokes := List.mem_of_find?_eq_some found
      exact ⟨rfl, ⟨⟨callee, invokes, first.1⟩, differ.1, differ.2.1, differ.2.2⟩, rfl, first, rfl⟩
    · rintro ⟨rfl, adapted, read⟩
      have same : a.callee = callee := Option.some.inj ((find?_eq_some_iff_isFirstOf.2 read.callee).symm.trans found)
      have differ : ¬ (old.invocations a.caller = [] ∨ new.invocations a.caller = [] ∨
          old.invocations a.caller = new.invocations a.caller) := by
        simp [adapted.callsInOld, adapted.callsInNew, adapted.changed]
      rw [if_neg differ, ← read.bodies, ← read.comparison, ← same]

theorem mem_diff {g : CallGraph} (graph : (graphWithLibrary c.change old new members).1 = g) :
    a ∈ diff c old new members ↔ Adapted g old new members a.caller ∧ ReadFrom c g old new members a := by
  subst graph
  simp only [diff_eq, List.mem_filterMap, Prod.exists]
  constructor
  · rintro ⟨caller, callees, entry, found⟩
    rw [← CallGraph.invocations_of_mem_toList entry] at found
    obtain ⟨rfl, adapted, read⟩ := ofCaller?_eq_some_iff.1 found
    exact ⟨adapted, read⟩
  · rintro ⟨adapted, read⟩
    obtain ⟨callee, invoked, -⟩ := adapted.usesLibrary
    exact ⟨a.caller, _, CallGraph.mem_toList_of_invocations (List.ne_nil_of_mem invoked),
      ofCaller?_eq_some_iff.2 ⟨rfl, adapted, read⟩⟩

theorem caller_of_ofCaller? {caller : String} {callees : List String}
    (found : ofCaller? c old new members caller callees = some a) : a.caller = caller := by
  cases first : callees.find? members.contains with
  | none => simp [ofCaller?, first] at found
  | some callee =>
    rw [ofCaller?_of_first first] at found
    obtain ⟨-, built⟩ := Option.ite_none_left_eq_some.1 found
    obtain rfl := Option.some.inj built
    rfl

theorem diff_ascending (c : Comparison) (old new : CallGraph) (members : Namespace) :
    (diff c old new members).Pairwise fun a b => a.caller < b.caller := by
  rw [diff_eq]
  refine (CallGraph.toList_ascending _).filterMap _ fun d e before a found b found' => ?_
  rw [caller_of_ofCaller? found, caller_of_ofCaller? found']
  exact before

theorem diff_self (c : Comparison) (g : CallGraph) (members : Namespace) : diff c g g members = [] := by
  refine List.eq_nil_iff_forall_not_mem.2 fun a listed => ?_
  exact ((mem_diff rfl).1 listed).1.changed rfl

/-- A diff has one adaptation for each adapted caller and no other, callers strictly ascending. -/
theorem diff_lists_adapted_callers (c : Comparison) (old new : CallGraph) (members : Namespace) :
    ∃ g, c.change.GraphOf old new members g ∧
      (∀ caller, (∃ a ∈ diff c old new members, a.caller = caller) ↔ Adapted g old new members caller) ∧
      (∀ a ∈ diff c old new members, ReadFrom c g old new members a) ∧
      (diff c old new members).Pairwise (fun a b => a.caller < b.caller) ∧
      ∀ g, diff c g g members = [] := by
  refine ⟨_, graphOf_graphWithLibrary c.change old new members, fun caller => ⟨?_, fun adapted => ?_⟩,
    fun a listed => ((mem_diff rfl).1 listed).2, diff_ascending c old new members, fun g => diff_self c g members⟩
  · rintro ⟨a, listed, rfl⟩
    exact ((mem_diff rfl).1 listed).1
  · obtain ⟨callee, found⟩ : ∃ callee, ((graphWithLibrary c.change old new members).1.invocations caller).find?
        members.contains = some callee := by
      obtain ⟨callee, invoked, member⟩ := adapted.usesLibrary
      exact Option.isSome_iff_exists.1 (List.find?_isSome.2 ⟨callee, invoked, Std.ExtTreeSet.contains_iff_mem.2 member⟩)
    have read : ReadFrom c (graphWithLibrary c.change old new members).1 old new members
        ⟨c, caller, callee, (bodies c.change old new caller).1, (bodies c.change old new caller).2⟩ :=
      ⟨rfl, find?_eq_some_iff_isFirstOf.1 found, rfl⟩
    exact ⟨_, (mem_diff rfl).2 ⟨adapted, read⟩, rfl⟩

def toChange (change : Change) (a : Adaptation) : Adaptation := { a with comparison := { a.comparison with change } }

def exchanged (a : Adaptation) : Adaptation := { a with before := a.after, after := a.before }

section Mirrored

variable {d : Comparison} {old' new' : CallGraph} {change : Change} {f : Adaptation → Adaptation}

theorem diff_eq_map
    (graph : (graphWithLibrary c.change old new members).1 = (graphWithLibrary d.change old' new' members).1)
    (each : ∀ caller callees, ofCaller? c old new members caller callees =
      (ofCaller? d old' new' members caller callees).map f) :
    diff c old new members = (diff d old' new' members).map f := by
  have same : (fun entry : String × List String => ofCaller? c old new members entry.1 entry.2) =
      fun entry => (ofCaller? d old' new' members entry.1 entry.2).map f := by
    funext entry
    exact each entry.1 entry.2
  rw [diff_eq, diff_eq, graph, List.map_filterMap]
  exact congrArg (List.filterMap · _) same

theorem ofCaller?_eq_map {caller : String} {callees : List String}
    (sides : old.invocations caller = old'.invocations caller ∧ new.invocations caller = new'.invocations caller ∨
      old.invocations caller = new'.invocations caller ∧ new.invocations caller = old'.invocations caller)
    (built : ∀ callee,
      f ⟨d, caller, callee, (bodies d.change old' new' caller).1, (bodies d.change old' new' caller).2⟩ =
      ⟨c, caller, callee, (bodies c.change old new caller).1, (bodies c.change old new caller).2⟩) :
    ofCaller? c old new members caller callees = (ofCaller? d old' new' members caller callees).map f := by
  cases first : callees.find? members.contains with
  | none => simp [ofCaller?, first]
  | some callee =>
    rw [ofCaller?_of_first first, ofCaller?_of_first first]
    have same : (old.invocations caller = [] ∨ new.invocations caller = [] ∨
        old.invocations caller = new.invocations caller) ↔
        (old'.invocations caller = [] ∨ new'.invocations caller = [] ∨
          old'.invocations caller = new'.invocations caller) := by
      rcases sides with ⟨first, second⟩ | ⟨first, second⟩
      · rw [first, second]
      · rw [first, second, or_left_comm]
        exact or_congr_right (or_congr_right eq_comm)
    simp only [same]
    split
    · rfl
    · exact congrArg some (built callee).symm

end Mirrored

/-- A removed library is diffed like one that is added on the way back. An updated one is diffed like an added one if
the new release calls into it, and else like a removed one with the bodies in the other order. -/
theorem diff_mirrored (c : Comparison) (g h : CallGraph) (members : Namespace) :
    diff { c with change := .removed } g h members =
        (diff { c with change := .added } h g members).map (toChange .removed) ∧
      (h.CallsInto members → diff { c with change := .updated } g h members =
        (diff { c with change := .added } g h members).map (toChange .updated)) ∧
      (¬ h.CallsInto members → diff { c with change := .updated } g h members =
        (diff { c with change := .removed } g h members).map (exchanged ∘ toChange .updated)) := by
  refine ⟨?_, fun used => ?_, fun unused => ?_⟩
  · exact diff_eq_map rfl fun caller callees => ofCaller?_eq_map (.inr ⟨rfl, rfl⟩) fun _ => rfl
  · have graph : (graphWithLibrary .updated g h members).1 = h := by rw [graphWithLibrary_of_used used]
    exact diff_eq_map graph fun caller callees => ofCaller?_eq_map (.inl ⟨rfl, rfl⟩) fun _ => rfl
  · have graph : (graphWithLibrary .updated g h members).1 = g := by rw [graphWithLibrary_of_unused unused]
    exact diff_eq_map graph fun caller callees => ofCaller?_eq_map (.inl ⟨rfl, rfl⟩) fun _ => rfl

/-- A client that calls into a library and one that does not, each updated to the other: the bodies keep their order. -/
theorem diff_mirrored_of_dropped_call :
    let c : Comparison := ⟨⟨"x", "c", "1"⟩, ⟨"x", "c", "2"⟩, ⟨"g", "a"⟩, .updated⟩
    let calling := CallGraph.ofFacts [("m", "a.foo"), ("m", "util.log")]
    let without := CallGraph.ofFacts [("m", "util.log")]
    let members : Namespace := {"a.foo"}
    (calling.CallsInto members ∧ diff c without calling members =
        (diff { c with change := .added } without calling members).map (toChange .updated)) ∧
      (¬ without.CallsInto members ∧ diff c calling without members =
        (diff { c with change := .removed } calling without members).map (exchanged ∘ toChange .updated)) ∧
      diff c calling without members = [⟨c, "m", "a.foo", ["a.foo", "util.log"], ["util.log"]⟩] := by
  intro c calling without members
  have used : calling.CallsInto members :=
    Classical.not_not.1 (mt CallGraph.usedCallees_isEmpty_iff.2 (by decide +kernel))
  have unused : ¬ without.CallsInto members := CallGraph.usedCallees_isEmpty_iff.1 (by decide +kernel)
  exact ⟨⟨used, (diff_mirrored c without calling members).2.1 used⟩,
    ⟨unused, (diff_mirrored c calling without members).2.2 unused⟩, by decide +kernel⟩

end Adaptation
end MigrationMining
