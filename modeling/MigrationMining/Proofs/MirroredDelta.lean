import MigrationMining.Proofs.DependencyGroups

/-! Two deltas of the same dependencies: the one with the sides exchanged, and the one of two lists that hold the same
dependencies in another order. -/

namespace MigrationMining

def VersionChange.reversed (c : VersionChange) : VersionChange := ⟨c.after, c.before⟩

theorem VersionChange.isBump_reversed (c : VersionChange) : c.reversed.isBump = c.isBump :=
  decide_eq_decide.2 ne_comm

namespace DependencyDelta

def reversed (d : DependencyDelta) : DependencyDelta where
  removed := d.added
  added := d.removed
  updated := d.updated.map fun _ change => change.reversed

theorem updated_reversed (a b : List Coordinate) :
    (compute b a).updated = (compute a b).updated.map fun _ change => change.reversed := by
  apply Std.ExtTreeMap.ext_getElem?
  intro p
  rw [Std.ExtTreeMap.getElem?_map, getElem?_updated, getElem?_updated]
  cases versionIn? a p <;> cases versionIn? b p <;> rfl

theorem compute_reversed (a b : List Coordinate) : compute b a = (compute a b).reversed := by
  rw [reversed, ← updated_reversed]
  rfl

theorem projects_updated_reversed (d : DependencyDelta) :
    (d.reversed.requested .updated).map (·.project) = (d.requested .updated).map (·.project) := by
  have bumps : (fun x : Project × VersionChange => (x.1, x.2.reversed).2.isBump) = fun x => x.2.isBump := by
    funext x
    exact x.2.isBump_reversed
  rw [requested_updated, requested_updated, reversed, Std.ExtTreeMap.toList_map, List.filter_map]
  simp only [List.map_map, Function.comp_def, Coordinate.project_release, bumps]

/-- On the way back the removed and the added libraries change places and every change of a version is reversed, in the
delta and in what is asked for. -/
theorem compute_mirrored (a b : List Coordinate) :
    compute b a = (compute a b).reversed ∧
    (compute b a).requested .removed = (compute a b).requested .added ∧
    (compute b a).requested .added = (compute a b).requested .removed ∧
    ((compute b a).requested .updated).map (·.project) = ((compute a b).requested .updated).map (·.project) := by
  rw [compute_reversed a b]
  refine ⟨rfl, ?_, ?_, projects_updated_reversed _⟩
  · rw [requested_removed, requested_added, reversed]
  · rw [requested_added, requested_removed, reversed]

section Same

variable {old new : List Coordinate} (same : ∀ d, d ∈ old ↔ d ∈ new)

include same

theorem removed_eq_empty : (compute old new).removed = ∅ := by
  apply Std.ExtTreeSet.eq_empty_iff_forall_not_mem.2
  intro d gone
  obtain ⟨used, unused⟩ := mem_removed.1 gone
  exact unused d ((same d).1 used) rfl

theorem added_eq_empty : (compute old new).added = ∅ := by
  apply Std.ExtTreeSet.eq_empty_iff_forall_not_mem.2
  intro d fresh
  obtain ⟨used, unused⟩ := mem_added.1 fresh
  exact unused d ((same d).2 used) rfl

theorem mem_affected_iff_of_same {a : AffectedLibrary} : a ∈ (compute old new).affected ↔
    a.change = .updated ∧ ∃ o, IsFirst (·.project = a.library.project) old o ∧
      IsFirst (·.project = a.library.project) new a.library ∧ o ≠ a.library := by
  obtain ⟨library, change⟩ := a
  rw [mem_affected]
  cases change with
  | removed => simp [requested_removed, removed_eq_empty same]
  | added => simp [requested_added, added_eq_empty same]
  | updated => simp [mem_requested_updated_iff]

theorem nodup_projects_affected : ((compute old new).affected.map (·.library.project)).Nodup := by
  have libraries : (compute old new).affected.map (·.library) = (compute old new).requested .updated := by
    have empty : (∅ : CoordinateSet).toList = [] := rfl
    simp [library_affected, requested_removed, requested_added, removed_eq_empty same, added_eq_empty same, empty]
  change ((compute old new).affected.map (Coordinate.project ∘ AffectedLibrary.library)).Nodup
  rw [← List.map_map, libraries]
  exact nodup_projects_updated _

/-- If the same dependencies are listed in any order, a library is asked for only as an update from the first release
of its project in one list to another that is the first one in the other list, and no project is asked for twice. -/
theorem affected_of_same_dependencies :
    (compute old new).removed = ∅ ∧ (compute old new).added = ∅ ∧
    (∀ a, a ∈ (compute old new).affected ↔ a.change = .updated ∧ ∃ o,
      IsFirst (·.project = a.library.project) old o ∧
      IsFirst (·.project = a.library.project) new a.library ∧ o ≠ a.library) ∧
    ((compute old new).affected.map (·.library.project)).Nodup ∧
    ((compute old new).affected = [] ↔
      ∀ p o n, IsFirst (·.project = p) old o → IsFirst (·.project = p) new n → o = n) ∧
    ((∀ d ∈ old, ∀ e ∈ old, d.project = e.project → d = e) → (compute old new).affected = []) := by
  have nothing : (compute old new).affected = [] ↔
      ∀ p o n, IsFirst (·.project = p) old o → IsFirst (·.project = p) new n → o = n := by
    simp only [List.eq_nil_iff_forall_not_mem, mem_affected_iff_of_same same]
    constructor
    · intro none p o n first first'
      by_contra differ
      obtain rfl := first'.1
      exact none ⟨n, .updated⟩ ⟨rfl, o, first, first', differ⟩
    · rintro agree a ⟨-, o, first, first', differ⟩
      exact differ (agree _ o a.library first first')
  refine ⟨removed_eq_empty same, added_eq_empty same, fun a => mem_affected_iff_of_same same,
    nodup_projects_affected same, nothing, ?_⟩
  intro single
  refine nothing.2 fun p o n first first' => ?_
  exact single o first.mem n ((same n).2 first'.mem) (first.1.trans first'.1.symm)

end Same

/-- Two releases of a project in the other order are an update from nothing. -/
theorem affected_of_exchanged_entries :
    let one : Coordinate := ⟨"g", "a", "1"⟩
    let two : Coordinate := ⟨"g", "a", "2"⟩
    (∀ d, d ∈ [one, two] ↔ d ∈ [two, one]) ∧ (compute [one, two] [two, one]).affected = [⟨two, .updated⟩] := by
  intro one two
  refine ⟨fun d => ?_, by decide +kernel⟩
  simp [or_comm]

theorem affected_of_reordered_dependencies :
    let one : Coordinate := ⟨"g", "a", "1"⟩
    let two : Coordinate := ⟨"g", "a", "2"⟩
    let other : Coordinate := ⟨"h", "b", "1"⟩
    (∀ d, d ∈ [one, other, two] ↔ d ∈ [other, one, two, other]) ∧
      (compute [one, other, two] [other, one, two, other]).removed = ∅ ∧
      (compute [one, other, two] [other, one, two, other]).added = ∅ ∧
      (compute [one, other, two] [other, one, two, other]).affected = [] := by
  intro one two other
  have same : ∀ d, d ∈ [one, other, two] ↔ d ∈ [other, one, two, other] := by
    intro d
    simp only [List.mem_cons, List.not_mem_nil, or_false]
    tauto
  have agree : ∀ p o n, IsFirst (·.project = p) [one, other, two] o →
      IsFirst (·.project = p) [other, one, two, other] n → o = n := by
    intro p o n first first'
    have entries : ∀ d ∈ [one, other, two], d.project = one.project ∨ d = other := by decide
    rcases entries o first.mem with library | rfl
    · obtain rfl : one.project = p := library.symm.trans first.1
      have before : [one, other, two].find? (·.project = one.project) = some one := by decide
      have after : [other, one, two, other].find? (·.project = one.project) = some one := by decide
      exact (first.eq (find?_eq_some_iff_isFirst.1 before)).trans (first'.eq (find?_eq_some_iff_isFirst.1 after)).symm
    · obtain rfl : other.project = p := first.1
      have after : [other, one, two, other].find? (·.project = other.project) = some other := by decide
      exact (first'.eq (find?_eq_some_iff_isFirst.1 after)).symm
  have settled := affected_of_same_dependencies same
  exact ⟨same, settled.1, settled.2.1, settled.2.2.2.2.1.2 agree⟩

end DependencyDelta
end MigrationMining
