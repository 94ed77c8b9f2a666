import Mathlib.Algebra.BigOperators.Group.List.Basic
import Mathlib.Algebra.GroupWithZero.Nat
import Mathlib.Data.List.Induction
import Mathlib.Order.Bounds.Defs
import MigrationMining.Proofs.StableSort
import MigrationMining.Statistics

/-! Counting links while they are gone through gives each release the number of links to it, and the figures of a dataset
sum these counts up: in the order of the counts, at their least and greatest, and over all releases. -/

namespace MigrationMining

def linkCount (links : List Link) (v : Coordinate) : Nat := links.countP (·.library = v)

variable {versions : List Coordinate} {links : List Link}

theorem linkCount_nil : linkCount [] = fun _ => 0 := rfl

theorem linkCount_cons (link : Link) (links : List Link) (v : Coordinate) :
    linkCount (link :: links) v = linkCount links v + if link.library = v then 1 else 0 := by
  simp [linkCount, List.countP_cons]

namespace Statistics.Tally

theorem getD_eq_of_entry {counts : Tally} {v : Coordinate} {n : Nat}
    (entry : counts[v]? = if n = 0 then none else some n) : counts.getD v 0 = n := by
  rw [Std.ExtTreeMap.getD_eq_getD_getElem?, entry]
  split
  · next none => exact none.symm
  · rfl

theorem getElem?_ofLinks (links : List Link) (v : Coordinate) :
    (ofLinks links)[v]? = if linkCount links v = 0 then none else some (linkCount links v) := by
  -- from the end of the links, where the last one is added to what all others have come to
  induction links using List.reverseRecOn with
  | nil =>
    have empty : ofLinks [] = ∅ := rfl
    simp [empty, linkCount]
  | append_singleton links link ih =>
    have added : ofLinks (links ++ [link]) = (ofLinks links).add link.library := by simp [ofLinks]
    rw [added, getElem?_add, getD_eq_of_entry ih, ih]
    by_cases here : link.library = v
    · simp [linkCount, here]
    · simp [linkCount, here]

theorem getD_ofLinks (links : List Link) (v : Coordinate) : (ofLinks links).getD v 0 = linkCount links v :=
  getD_eq_of_entry (getElem?_ofLinks links v)

theorem contains_ofLinks (links : List Link) (v : Coordinate) :
    (ofLinks links).contains v = decide (linkCount links v ≠ 0) := by
  rw [Std.ExtTreeMap.contains_eq_isSome_getElem?, getElem?_ofLinks]
  split <;> simp_all

end Statistics.Tally

theorem sum_linkCount_cons (link : Link) (links : List Link) (versions : List Coordinate) :
    (versions.map (linkCount (link :: links))).sum = (versions.map (linkCount links)).sum + versions.count link.library := by
  induction versions with
  | nil => rfl
  | cons v versions ih =>
    rw [List.map_cons, List.sum_cons, ih, linkCount_cons, List.map_cons, List.sum_cons]
    by_cases here : v = link.library
    · rw [here, if_pos rfl, List.count_cons_self]
      omega
    · rw [if_neg (Ne.symm here), List.count_cons_of_ne here]
      omega

theorem sum_linkCount (versions : List Coordinate) (links : List Link) :
    (versions.map (linkCount links)).sum = (links.map fun link => versions.count link.library).sum := by
  induction links with
  | nil => simp [linkCount_nil]
  | cons link links ih => rw [sum_linkCount_cons, ih, List.map_cons, List.sum_cons, Nat.add_comm]

theorem sum_linkCount_of_nodup (once : versions.Nodup) (links : List Link) :
    (versions.map (linkCount links)).sum = links.countP (·.library ∈ versions) := by
  rw [sum_linkCount]
  induction links with
  | nil => rfl
  | cons link links ih =>
    rw [List.map_cons, List.sum_cons, ih, once.count, List.countP_cons, Nat.add_comm]
    simp only [decide_eq_true_eq]

theorem isLeast_min? {ns : List Nat} (filled : ns ≠ []) : IsLeast {n | n ∈ ns} (ns.min?.getD 0) := by
  obtain ⟨m, least⟩ := Option.isSome_iff_exists.1 (List.isSome_min?_of_ne_nil filled)
  obtain ⟨mem, le⟩ := List.min?_eq_some_iff.1 least
  rw [least]
  exact ⟨mem, le⟩

theorem isGreatest_max? {ns : List Nat} (filled : ns ≠ []) : IsGreatest {n | n ∈ ns} (ns.max?.getD 0) := by
  obtain ⟨m, greatest⟩ := Option.isSome_iff_exists.1 (List.isSome_max?_of_ne_nil filled)
  obtain ⟨mem, le⟩ := List.max?_eq_some_iff.1 greatest
  rw [greatest]
  exact ⟨mem, le⟩

namespace Statistics

/-- Releases in the order of their links: most links first, and with equally many links in the order of the versions. -/
structure ByLinks (versions : List Coordinate) (links : List Link) (order : List Coordinate) : Prop where
  perm : order.Perm versions
  descending : order.Pairwise fun v w => linkCount links w ≤ linkCount links v
  stable : ∀ n, order.filter (linkCount links · = n) = versions.filter (linkCount links · = n)

/-- The figures sum up how many links lead to each release: all releases in the order of their links, those without links in
the order of the versions, the least and the greatest count, and the average over the versions. If no version is listed
twice, the counts add up to the links to listed releases. -/
structure SumsUp (s : Statistics) (versions : List Coordinate) (links : List Link) : Prop where
  usage : ∃ order, ByLinks versions links order ∧ s.usage = order.map fun v => ⟨v.version, linkCount links v⟩
  orphans : s.orphans = (versions.filter (linkCount links · = 0)).map (·.version)
  empty : versions = [] → s.fewest = 0 ∧ s.most = 0
  fewest : versions ≠ [] → IsLeast {n | ∃ v ∈ versions, linkCount links v = n} s.fewest
  most : versions ≠ [] → IsGreatest {n | ∃ v ∈ versions, linkCount links v = n} s.most
  average : s.average = ⟨(s.usage.map (·.clients)).sum, versions.length⟩
  total : versions.Nodup → (s.usage.map (·.clients)).sum = links.countP (·.library ∈ versions)

def linkOrder (versions : List Coordinate) (links : List Link) : List Coordinate :=
  versions.mergeSort fun v w => linkCount links w ≤ linkCount links v

theorem byLinks_linkOrder (versions : List Coordinate) (links : List Link) :
    ByLinks versions links (linkOrder versions links) where
  perm := List.mergeSort_perm _ _
  descending := by
    have sorted := List.pairwise_mergeSort (StableSort.descending_trans (linkCount links))
      (StableSort.descending_total (linkCount links)) versions
    exact sorted.imp of_decide_eq_true
  stable n := by
    refine StableSort.filter_mergeSort (StableSort.descending_trans _) (StableSort.descending_total _) (fun v w hv hw => ?_) _
    rw [decide_eq_true_eq] at hv hw ⊢
    omega

theorem usageOf_ofLinks (versions : List Coordinate) (links : List Link) : usageOf versions (.ofLinks links) =
    (linkOrder versions links).map fun v => ⟨v.version, linkCount links v⟩ := by
  simp only [usageOf, Tally.getD_ofLinks]
  rw [linkOrder, List.map_mergeSort]
  exact fun _ _ _ _ => rfl

theorem counts_perm (versions : List Coordinate) (links : List Link) :
    ((usageOf versions (.ofLinks links)).map (·.clients)).Perm (versions.map (linkCount links)) := by
  rw [usageOf_ofLinks, List.map_map]
  exact (byLinks_linkOrder versions links).perm.map _

theorem mem_counts {n : Nat} : n ∈ (usageOf versions (.ofLinks links)).map (·.clients) ↔
    ∃ v ∈ versions, linkCount links v = n := by
  rw [(counts_perm versions links).mem_iff, List.mem_map]

theorem length_counts (versions : List Coordinate) (links : List Link) :
    ((usageOf versions (.ofLinks links)).map (·.clients)).length = versions.length :=
  (counts_perm versions links).length_eq.trans (List.length_map _)

theorem counts_ne_nil (links : List Link) (listed : versions ≠ []) :
    (usageOf versions (.ofLinks links)).map (·.clients) ≠ [] :=
  List.ne_nil_of_length_pos (length_counts versions links ▸ List.length_pos_iff.2 listed)

theorem compute_sumsUp (versions : List Coordinate) (links : List Link) (candidates : List Candidate) :
    (compute versions links candidates).SumsUp versions links where
  usage := ⟨_, byLinks_linkOrder versions links, usageOf_ofLinks versions links⟩
  orphans := by simp [compute, Tally.contains_ofLinks]
  empty := by
    rintro rfl
    simp [compute, usageOf]
  fewest listed := by
    have least := isLeast_min? (counts_ne_nil links listed)
    simp only [mem_counts] at least
    exact least
  most listed := by
    have greatest := isGreatest_max? (counts_ne_nil links listed)
    simp only [mem_counts] at greatest
    exact greatest
  average := by
    simp only [compute, length_counts]
    rfl
  total once := (counts_perm versions links).sum_eq.trans (sum_linkCount_of_nodup once links)

theorem compute_sumsUp_of_stray_link :
    let versions : List Coordinate := [⟨"g", "a", "1"⟩, ⟨"g", "a", "2"⟩, ⟨"g", "a", "3"⟩, ⟨"g", "a", "4"⟩]
    let links : List Link := [⟨⟨"g", "a", "4"⟩, ⟨"x", "c", "1"⟩⟩, ⟨⟨"g", "a", "2"⟩, ⟨"x", "c", "1"⟩⟩,
      ⟨⟨"h", "b", "1"⟩, ⟨"x", "c", "1"⟩⟩, ⟨⟨"g", "a", "3"⟩, ⟨"y", "d", "1"⟩⟩, ⟨⟨"g", "a", "3"⟩, ⟨"y", "d", "2"⟩⟩]
    let s := compute versions links []
    versions.Nodup ∧ s.SumsUp versions links ∧ (s.usage.map (·.clients)).sum = 4 ∧ s.average = ⟨4, 4⟩ ∧
      s.orphans = ["1"] := by
  intro versions links s
  have once : versions.Nodup := by decide
  have figures : s.SumsUp versions links := compute_sumsUp versions links []
  have total : (s.usage.map (·.clients)).sum = 4 := figures.total once
  have average : s.average = ⟨4, 4⟩ := by
    rw [figures.average, total]
    rfl
  exact ⟨once, figures, total, average, by decide +kernel⟩

end Statistics

end MigrationMining
