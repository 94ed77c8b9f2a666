import Mathlib.Data.List.Nodup
import Mathlib.Logic.ExistsUnique
import MigrationMining.DependencyDelta
import MigrationMining.Proofs.FirstAndLast

/-! What the delta of two dependency lists holds. The project of each dependency is in one of three groups, a project
that both sides have goes from its first old entry to its first new one, and the affected libraries follow from that. -/

namespace MigrationMining
namespace DependencyDelta

variable {old new side other : List Coordinate} {p : Project}

theorem mem_onlyIn {d : Coordinate} : d ∈ onlyIn side other ↔ d ∈ side ∧ ∀ o ∈ other, o.project ≠ d.project := by
  simp [onlyIn]

theorem mem_removed {d : Coordinate} :
    d ∈ (compute old new).removed ↔ d ∈ old ∧ ∀ n ∈ new, n.project ≠ d.project := by
  simp [compute, mem_onlyIn]

theorem mem_added {d : Coordinate} :
    d ∈ (compute old new).added ↔ d ∈ new ∧ ∀ o ∈ old, o.project ≠ d.project := by
  simp [compute, mem_onlyIn]

theorem versionIn?_eq_some_iff {version : String} :
    versionIn? side p = some version ↔ ∃ d, IsFirst (·.project = p) side d ∧ d.version = version := by
  simp only [versionIn?, Option.map_eq_some_iff, find?_eq_some_iff_isFirst]

theorem versionIn?_isSome : (versionIn? side p).isSome ↔ ∃ d ∈ side, d.project = p := by
  simp [versionIn?]

theorem versionIn?_cons (d : Coordinate) (side : List Coordinate) (p : Project) :
    versionIn? (d :: side) p = if d.project = p then some d.version else versionIn? side p := by
  by_cases same : d.project = p <;> simp [versionIn?, same]

theorem getElem?_insertIfNew (changes : Std.ExtTreeMap Project VersionChange compare) (q p : Project)
    (change : VersionChange) :
    (changes.insertIfNew q change)[p]? = changes[p]?.or (if q = p then some change else none) := by
  simp only [Std.ExtTreeMap.getElem?_insertIfNew, Std.LawfulEqCmp.compare_eq_iff_eq]
  by_cases same : q = p
  · subst same
    by_cases held : q ∈ changes
    · simp [held]
    · simp [held]
  · simp [same]

/-- A change that is noted stays. Else the first new entry of a project is noted, if the old side has the project. -/
theorem getElem?_foldl_updated (old side : List Coordinate) (changes : Std.ExtTreeMap Project VersionChange compare)
    (p : Project) :
    (side.foldl (fun changes d =>
      match versionIn? old d.project with
      | none => changes
      | some before => changes.insertIfNew d.project ⟨before, d.version⟩) changes)[p]? =
    changes[p]?.or ((versionIn? old p).bind fun before => (versionIn? side p).map (⟨before, ·⟩)) := by
  induction side generalizing changes with
  | nil => simp [versionIn?]
  | cons d side ih =>
    rw [List.foldl_cons, ih, versionIn?_cons]
    by_cases same : d.project = p
    · subst same
      cases versionIn? old d.project with
      | none => rfl
      | some before =>
        rw [getElem?_insertIfNew, if_pos rfl, if_pos rfl, Option.or_assoc, Option.some_or]
        rfl
    · rw [if_neg same]
      cases versionIn? old d.project with
      | none => rfl
      | some before => rw [getElem?_insertIfNew, if_neg same, Option.or_none]

theorem getElem?_updated (old new : List Coordinate) (p : Project) :
    (compute old new).updated[p]? =
      (versionIn? old p).bind fun before => (versionIn? new p).map (⟨before, ·⟩) := by
  have run := getElem?_foldl_updated old new ∅ p
  rwa [Std.ExtTreeMap.getElem?_empty, Option.none_or] at run

theorem getElem?_updated_eq_some_iff {change : VersionChange} :
    (compute old new).updated[p]? = some change ↔
      ∃ o n, IsFirst (·.project = p) old o ∧ IsFirst (·.project = p) new n ∧ change = ⟨o.version, n.version⟩ := by
  simp only [getElem?_updated, Option.bind_eq_some_iff, Option.map_eq_some_iff, versionIn?_eq_some_iff]
  constructor
  · rintro ⟨_, ⟨o, first, rfl⟩, _, ⟨n, first', rfl⟩, rfl⟩
    exact ⟨o, n, first, first', rfl⟩
  · rintro ⟨o, n, first, first', rfl⟩
    exact ⟨_, ⟨o, first, rfl⟩, _, ⟨n, first', rfl⟩, rfl⟩

theorem mem_updated :
    p ∈ (compute old new).updated ↔ (∃ o ∈ old, o.project = p) ∧ ∃ n ∈ new, n.project = p := by
  rw [← Std.ExtTreeMap.isSome_getElem?_iff_mem, getElem?_updated, ← versionIn?_isSome, ← versionIn?_isSome]
  cases versionIn? old p <;> cases versionIn? new p <;> simp

/-- The project is in the group of that change. -/
def Groups (d : DependencyDelta) (p : Project) : Change → Prop
  | .removed => ∃ c ∈ d.removed, c.project = p
  | .added => ∃ c ∈ d.added, c.project = p
  | .updated => p ∈ d.updated

theorem groups_iff {change : Change} : (compute old new).Groups p change ↔
    ((∃ o ∈ old, o.project = p) ↔ change ≠ .added) ∧ ((∃ n ∈ new, n.project = p) ↔ change ≠ .removed) := by
  cases change with
  | removed =>
    simp only [Groups, mem_removed]
    grind
  | added =>
    simp only [Groups, mem_added]
    grind
  | updated => simp [Groups, mem_updated]

theorem Groups.eq {change change' : Change} (h : (compute old new).Groups p change)
    (h' : (compute old new).Groups p change') : change = change' := by
  have inOld := (groups_iff.1 h).1.symm.trans (groups_iff.1 h').1
  have inNew := (groups_iff.1 h).2.symm.trans (groups_iff.1 h').2
  cases change <;> cases change' <;> simp at inOld inNew ⊢

theorem exists_groups {d : Coordinate} (listed : d ∈ old ++ new) :
    ∃ change, (compute old new).Groups d.project change := by
  have someSide : (∃ o ∈ old, o.project = d.project) ∨ ∃ n ∈ new, n.project = d.project :=
    (List.mem_append.1 listed).imp (⟨d, ·, rfl⟩) (⟨d, ·, rfl⟩)
  by_cases inOld : ∃ o ∈ old, o.project = d.project
  · by_cases inNew : ∃ n ∈ new, n.project = d.project
    · exact ⟨.updated, groups_iff.2 ⟨by simp [inOld], by simp [inNew]⟩⟩
    · exact ⟨.removed, groups_iff.2 ⟨by simp [inOld], by simp [inNew]⟩⟩
  · have inNew := someSide.resolve_left inOld
    exact ⟨.added, groups_iff.2 ⟨by simp [inOld], by simp [inNew]⟩⟩

def requested (d : DependencyDelta) (change : Change) : List Coordinate :=
  (d.affected.filter (·.change = change)).map (·.library)

theorem requested_removed (d : DependencyDelta) : d.requested .removed = d.removed.toList := by
  simp [requested, affected, List.filter_map, Function.comp_def]

theorem requested_added (d : DependencyDelta) : d.requested .added = d.added.toList := by
  simp [requested, affected, List.filter_map, Function.comp_def]

theorem requested_updated (d : DependencyDelta) :
    d.requested .updated = (d.updated.toList.filter (·.2.isBump)).map fun x => x.1.release x.2.after := by
  simp [requested, affected, List.filter_map, Function.comp_def]

theorem library_affected (d : DependencyDelta) :
    d.affected.map (·.library) = d.requested .removed ++ d.requested .added ++ d.requested .updated := by
  simp [requested_removed, requested_added, requested_updated, affected, Function.comp_def]

theorem mem_affected {d : DependencyDelta} {a : AffectedLibrary} :
    a ∈ d.affected ↔ a.library ∈ d.requested a.change := by
  simp only [requested, List.mem_map, List.mem_filter, decide_eq_true_eq]
  constructor
  · exact fun asked => ⟨a, ⟨asked, rfl⟩, rfl⟩
  · rintro ⟨⟨library, change⟩, ⟨asked, rfl⟩, rfl⟩
    exact asked

theorem mem_requested_updated {d : DependencyDelta} {c : Coordinate} : c ∈ d.requested .updated ↔
    ∃ before, d.updated[c.project]? = some ⟨before, c.version⟩ ∧ before ≠ c.version := by
  simp only [requested_updated, List.mem_map, List.mem_filter, Prod.exists,
    Std.ExtTreeMap.mem_toList_iff_getElem?_eq_some, VersionChange.isBump, decide_eq_true_eq]
  constructor
  · rintro ⟨p, change, ⟨held, differ⟩, rfl⟩
    exact ⟨change.before, held, differ⟩
  · rintro ⟨before, held, differ⟩
    exact ⟨c.project, ⟨before, c.version⟩, ⟨held, differ⟩, rfl⟩

theorem mem_requested_updated_iff {c : Coordinate} : c ∈ (compute old new).requested .updated ↔
    ∃ o, IsFirst (·.project = c.project) old o ∧ IsFirst (·.project = c.project) new c ∧ o ≠ c := by
  have determined {a b : Coordinate} (project : a.project = b.project) (version : a.version = b.version) : a = b :=
    (congrArg (·.release a.version) project).trans (congrArg b.project.release version)
  simp only [mem_requested_updated, getElem?_updated_eq_some_iff, VersionChange.mk.injEq]
  constructor
  · rintro ⟨_, ⟨o, n, first, first', rfl, version⟩, differ⟩
    obtain rfl : c = n := determined first'.1.symm version
    exact ⟨o, first, first', fun same => differ (congrArg Coordinate.version same)⟩
  · rintro ⟨o, first, first', differ⟩
    exact ⟨o.version, ⟨o, c, first, first', rfl, rfl⟩, fun same => differ (determined first.1 same)⟩

theorem groups_of_mem_requested {d : DependencyDelta} {change : Change} {c : Coordinate}
    (asked : c ∈ d.requested change) : d.Groups c.project change := by
  cases change with
  | removed =>
    rw [requested_removed] at asked
    exact ⟨c, Std.ExtTreeSet.mem_toList.1 asked, rfl⟩
  | added =>
    rw [requested_added] at asked
    exact ⟨c, Std.ExtTreeSet.mem_toList.1 asked, rfl⟩
  | updated =>
    obtain ⟨before, held, -⟩ := mem_requested_updated.1 asked
    exact Std.ExtTreeMap.mem_iff_isSome_getElem?.2 (by simp [held])

theorem nodup_projects_updated (d : DependencyDelta) : ((d.requested .updated).map (·.project)).Nodup := by
  rw [requested_updated, List.map_map]
  exact List.pairwise_map.2 ((Std.ExtTreeMap.distinct_keys_toList.filter _).imp Std.ReflCmp.ne_of_cmp_ne_eq)

theorem nodup_requested (d : DependencyDelta) (change : Change) : (d.requested change).Nodup := by
  have once (releases : CoordinateSet) : releases.toList.Nodup :=
    Std.ExtTreeSet.distinct_toList.imp Std.ReflCmp.ne_of_cmp_ne_eq
  cases change with
  | removed => exact d.requested_removed ▸ once d.removed
  | added => exact d.requested_added ▸ once d.added
  | updated => exact (nodup_projects_updated d).of_map _

theorem nodup_affected (old new : List Coordinate) : ((compute old new).affected.map (·.library)).Nodup := by
  have apart {x y : Change} (differ : x ≠ y) :
      ((compute old new).requested x).Disjoint ((compute old new).requested y) := by
    intro c hx hy
    exact differ ((groups_of_mem_requested hx).eq (groups_of_mem_requested hy))
  have whole (change : Change) : ((compute old new).requested change).Nodup := nodup_requested _ change
  rw [library_affected]
  have first := (whole .removed).append (whole .added) (apart (by decide))
  exact first.append (whole .updated) (List.disjoint_append_left.2 ⟨apart (by decide), apart (by decide)⟩)

/-- What is asked for because of a delta, in three parts: the removed releases, the added ones, and the projects whose
two versions differ. Each part is in ascending order. -/
structure Asks (d : DependencyDelta) (removed added : List Coordinate) (bumped : List (Project × VersionChange)) :
    Prop where
  affected : d.affected = removed.map (⟨·, .removed⟩) ++ added.map (⟨·, .added⟩) ++
    bumped.map fun (p, c) => ⟨p.release c.after, .updated⟩
  mem_removed : ∀ c, c ∈ removed ↔ c ∈ d.removed
  mem_added : ∀ c, c ∈ added ↔ c ∈ d.added
  mem_bumped : ∀ p c, (p, c) ∈ bumped ↔ d.updated[p]? = some c ∧ c.before ≠ c.after
  removed_ascending : removed.Pairwise (compare · · = .lt)
  added_ascending : added.Pairwise (compare · · = .lt)
  bumped_ascending : bumped.Pairwise fun x y => compare x.1 y.1 = .lt

theorem asks (d : DependencyDelta) :
    d.Asks d.removed.toList d.added.toList (d.updated.toList.filter (·.2.isBump)) where
  affected := rfl
  mem_removed _ := Std.ExtTreeSet.mem_toList
  mem_added _ := Std.ExtTreeSet.mem_toList
  mem_bumped p c := by simp [VersionChange.isBump]
  removed_ascending := Std.ExtTreeSet.ordered_toList
  added_ascending := Std.ExtTreeSet.ordered_toList
  bumped_ascending := Std.ExtTreeMap.ordered_keys_toList.filter _

/-- Each dependency is in the group that the sides with its project decide, a project of both sides goes from its first
old entry to its first new one, and the libraries that are asked for are those of the groups in order, each once. -/
theorem compute_groups_dependencies (old new : List Coordinate) :
    (∀ d ∈ old ++ new, ∃! change, (compute old new).Groups d.project change) ∧
    (∀ d, d ∈ (compute old new).removed ↔ d ∈ old ∧ ∀ n ∈ new, n.project ≠ d.project) ∧
    (∀ d, d ∈ (compute old new).added ↔ d ∈ new ∧ ∀ o ∈ old, o.project ≠ d.project) ∧
    (∀ p, p ∈ (compute old new).updated ↔ (∃ o ∈ old, o.project = p) ∧ ∃ n ∈ new, n.project = p) ∧
    (∀ p change, (compute old new).updated[p]? = some change ↔
      ∃ o n, IsFirst (·.project = p) old o ∧ IsFirst (·.project = p) new n ∧ change = ⟨o.version, n.version⟩) ∧
    (∃ removed added bumped, (compute old new).Asks removed added bumped) ∧
    ((compute old new).affected.map (·.library)).Nodup := by
  refine ⟨fun d listed => ?_, fun d => mem_removed, fun d => mem_added, fun p => mem_updated,
    fun p change => getElem?_updated_eq_some_iff, ⟨_, _, _, (compute old new).asks⟩, nodup_affected old new⟩
  obtain ⟨change, group⟩ := exists_groups listed
  exact ⟨change, group, fun other h => h.eq group⟩

example : (compute [⟨"g", "a", "1"⟩, ⟨"g", "a", "2"⟩] [⟨"g", "a", "3"⟩, ⟨"g", "a", "1"⟩]).affected =
    [⟨⟨"g", "a", "3"⟩, .updated⟩] := by decide +kernel

end DependencyDelta
end MigrationMining
