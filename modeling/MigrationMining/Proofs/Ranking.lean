import MigrationMining.Candidate
import MigrationMining.Proofs.StableSort
import Mathlib.Data.Nat.Choose.Basic

/-! The ranking of the pairs of a version list: which pairs are compared before a run is cancelled, and the order in
which their candidates stand. -/

namespace MigrationMining

/-- The positions of a list of `n` items, taken as pairs by two nested loops: each position with every later one. -/
def positionPairs (n : Nat) : List (Fin n × Fin n) :=
  (List.finRange n).flatMap fun i => ((List.finRange n).filter (i < ·)).map (i, ·)

def PositionsBefore {n : Nat} (p q : Fin n × Fin n) : Prop := p.1 < q.1 ∨ p.1 = q.1 ∧ p.2 < q.2

theorem PositionsBefore.ne {n : Nat} {p q : Fin n × Fin n} (h : PositionsBefore p q) : p ≠ q := by
  rintro rfl
  rcases h with h | ⟨_, h⟩
  · exact Fin.lt_irrefl _ h
  · exact Fin.lt_irrefl _ h

@[simp] theorem mem_positionPairs {n : Nat} {p : Fin n × Fin n} : p ∈ positionPairs n ↔ p.1 < p.2 := by
  obtain ⟨i, j⟩ := p
  simp [positionPairs]

theorem pairwise_positionPairs (n : Nat) : (positionPairs n).Pairwise PositionsBefore := by
  refine List.pairwise_flatMap.2 ⟨fun i _ => ?_, ?_⟩
  · exact List.pairwise_map.2 (((List.pairwise_lt_finRange n).filter _).imp fun h => Or.inr ⟨rfl,h⟩)
  · refine (List.pairwise_lt_finRange n).imp fun {i j} hij => ?_
    simp only [List.mem_map]
    rintro _ ⟨a, _, rfl⟩ _ ⟨b, _, rfl⟩
    exact Or.inl hij

theorem nodup_positionPairs (n : Nat) : (positionPairs n).Nodup := (pairwise_positionPairs n).imp PositionsBefore.ne

section OrderedPairs

variable {α β : Type}

theorem orderedPairs_map (f : α → β) (xs : List α) :
    orderedPairs (xs.map f) = (orderedPairs xs).map (Prod.map f f) := by
  induction xs with
  | nil => rfl
  | cons x xs ih => simp [orderedPairs, ih, Function.comp_def]

theorem mem_of_mem_orderedPairs {xs : List α} {p : α × α} (h : p ∈ orderedPairs xs) : p.1 ∈ xs ∧ p.2 ∈ xs := by
  induction xs with
  | nil => cases h
  | cons x xs ih =>
    rcases List.mem_append.1 h with h | h
    · obtain ⟨y, later, rfl⟩ := List.mem_map.1 h
      exact ⟨by simp, List.mem_cons_of_mem x later⟩
    · obtain ⟨first, second⟩ := ih h
      exact ⟨List.mem_cons_of_mem x first, List.mem_cons_of_mem x second⟩

theorem length_orderedPairs (xs : List α) : (orderedPairs xs).length = xs.length * (xs.length - 1) / 2 := by
  rw [← Nat.choose_two_right]
  induction xs with
  | nil => rfl
  | cons x xs ih => simp [orderedPairs, ih, Nat.choose_succ_succ']

theorem orderedPairs_of_ascending {n : Nat} {xs : List (Fin n)} (ascending : xs.Pairwise (· < ·)) :
    orderedPairs xs = xs.flatMap fun x => (xs.filter (x < ·)).map (x, ·) := by
  induction xs with
  | nil => rfl
  | cons x xs ih =>
    obtain ⟨first, rest⟩ := List.pairwise_cons.1 ascending
    have later : xs.filter (x < ·) = xs := List.filter_eq_self.2 fun y hy => by simpa using first y hy
    have same : ∀ y ∈ xs, ((x :: xs).filter (y < ·)).map (y, ·) = (xs.filter (y < ·)).map (y, ·) := by
      intro y hy
      have h : ¬ y < x := Fin.not_lt.2 (Fin.le_of_lt (first y hy))
      simp [h]
    rw [orderedPairs, ih rest, List.flatMap_cons, List.flatMap_congr same]
    simp [later]

theorem positionPairs_eq (n : Nat) : positionPairs n = orderedPairs (List.finRange n) :=
  (orderedPairs_of_ascending (List.pairwise_lt_finRange n)).symm

theorem orderedPairs_eq (xs : List α) :
    orderedPairs xs = (positionPairs xs.length).map fun p => (xs[p.1], xs[p.2]) := by
  conv_lhs => rw [← List.map_get_finRange xs, orderedPairs_map, ← positionPairs_eq]
  rfl

theorem length_positionPairs (n : Nat) : (positionPairs n).length = n * (n - 1) / 2 := by
  rw [positionPairs_eq, length_orderedPairs, List.length_finRange]

end OrderedPairs

namespace Candidate

/-- Of `total` comparisons `k` are made: the run is not found cancelled before any of them, and it is found cancelled
before the next one if there is one. -/
structure StopsAt (seen : Nat → Bool) (total k : Nat) : Prop where
  le : k ≤ total
  before : ∀ i < k, seen i = false
  after : k < total → seen k = true

theorem StopsAt.never (total : Nat) : StopsAt (fun _ => false) total total :=
  ⟨le_rfl, fun _ _ => rfl, fun h => absurd h (lt_irrefl _)⟩

theorem takeWhile_zipIdx {α : Type} {seen : Nat → Bool} {xs : List α} {k : Nat} (start : Nat)
    (stops : StopsAt (fun i => seen (start + i)) xs.length k) :
    (xs.zipIdx start).takeWhile (fun p => !seen p.2) = (xs.zipIdx start).take k := by
  induction xs generalizing start k with
  | nil => simp
  | cons x xs ih =>
    cases k with
    | zero =>
      have h : seen start = true := stops.after (by simp)
      simp [h]
    | succ k =>
      have h : seen start = false := stops.before 0 (by omega)
      have rest : StopsAt (fun i => seen (start + 1 + i)) xs.length k := by
        refine ⟨by simpa using stops.le, fun i hi => ?_, fun hk => ?_⟩
        · simpa [Nat.add_assoc, Nat.add_comm 1 i] using stops.before (i + 1) (by omega)
        · simpa [Nat.add_assoc, Nat.add_comm 1 k] using stops.after (by simpa using hk)
      simp [h, ih (start + 1) rest]

theorem eq_between_of_mem_rankUntil {seen : Nat → Bool} {versions : List Coordinate} {m : UsageMatrix}
    {clients : ProjectSet} {c : Candidate} (h : c ∈ rankUntil seen versions m clients) :
    ∃ older ∈ versions, ∃ newer ∈ versions, c = between m clients older newer := by
  simp only [rankUntil, byMigrated, List.mem_mergeSort, List.mem_map] at h
  obtain ⟨⟨⟨older, newer⟩, k⟩, compared, rfl⟩ := h
  have pair := List.fst_mem_of_mem_zipIdx (List.takeWhile_subset _ compared)
  obtain ⟨first, second⟩ := mem_of_mem_orderedPairs pair
  exact ⟨older, first, newer, second, rfl⟩

section Ranking

variable (versions : List Coordinate) (m : UsageMatrix) (clients : ProjectSet)

def ofPositions (p : Fin versions.length × Fin versions.length) : Candidate :=
  between m clients versions[p.1] versions[p.2]

theorem rankUntil_eq {seen : Nat → Bool} {k : Nat}
    (stops : StopsAt seen (versions.length * (versions.length - 1) / 2) k) :
    rankUntil seen versions m clients =
      byMigrated (((positionPairs versions.length).take k).map (ofPositions versions m clients)) := by
  have compared : ((orderedPairs versions).zipIdx.takeWhile fun p => !seen p.2) =
      (orderedPairs versions).zipIdx.take k := by
    apply takeWhile_zipIdx
    simpa [length_orderedPairs] using stops
  have listed : ((orderedPairs versions).zipIdx.take k).map (fun p => between m clients p.1.1 p.1.2) =
      ((positionPairs versions.length).take k).map (ofPositions versions m clients) := by
    calc
      _ = (((orderedPairs versions).zipIdx.map (·.1)).take k).map fun p => between m clients p.1 p.2 := by
        rw [← List.map_take, List.map_map]
        rfl
      _ = (((positionPairs versions.length).map fun p => (versions[p.1], versions[p.2])).take k).map
          fun p => between m clients p.1 p.2 := by
        rw [List.zipIdx_map_fst, orderedPairs_eq]
      _ = _ := by
        rw [← List.map_take, List.map_map]
        rfl
  rw [← listed, ← compared]
  rfl

theorem rankUntil_sublist {seen : Nat → Bool} {k : Nat}
    (stops : StopsAt seen (versions.length * (versions.length - 1) / 2) k) :
    (rankUntil seen versions m clients).Sublist (rankUntil (fun _ => false) versions m clients) := by
  rw [rankUntil_eq versions m clients stops, rankUntil_eq versions m clients (.never _)]
  apply StableSort.mergeSort_sublist_of_sublist (StableSort.descending_trans _) (StableSort.descending_total _)
  rw [← length_positionPairs, List.take_length]
  exact (List.take_sublist k _).map _

/-- `ranked` holds the candidates of the first `k` pairs of positions, each pair once: those with more migrated
clients first, those with equally many in the order of their positions. -/
def RanksFirst (k : Nat) (ranked : List Candidate) : Prop :=
  ∃ order : List (Fin versions.length × Fin versions.length),
    order.Perm ((positionPairs versions.length).take k) ∧ order.Nodup ∧ order.length = k ∧
    ranked = order.map (ofPositions versions m clients) ∧
    order.Pairwise fun p q =>
      (ofPositions versions m clients q).migrated ≤ (ofPositions versions m clients p).migrated ∧
      ((ofPositions versions m clients p).migrated = (ofPositions versions m clients q).migrated →
        PositionsBefore p q)

/-- Until it is cancelled a run ranks a prefix of the enumeration, and what it returns is part of the full ranking. -/
theorem rankUntil_ranksFirst {seen : Nat → Bool} {k : Nat}
    (stops : StopsAt seen (versions.length * (versions.length - 1) / 2) k) :
    RanksFirst versions m clients k (rankUntil seen versions m clients) ∧
    (rankUntil seen versions m clients).Sublist (rankUntil (fun _ => false) versions m clients) := by
  refine ⟨?_, rankUntil_sublist versions m clients stops⟩
  let moved p := (ofPositions versions m clients p).migrated
  have compared : k ≤ (positionPairs versions.length).length := by
    simpa only [length_positionPairs] using stops.le
  have perm := List.mergeSort_perm ((positionPairs versions.length).take k) fun p q => moved q ≤ moved p
  refine ⟨_, perm, ?_, ?_, ?_, ?_⟩
  · exact perm.nodup_iff.2 ((nodup_positionPairs _).sublist (List.take_sublist k _))
  · rw [perm.length_eq, List.length_take, min_eq_left compared]
  · rw [rankUntil_eq versions m clients stops, byMigrated, List.map_mergeSort]
    intro p _ q _
    rfl
  · have lexicographic := (pairwise_positionPairs versions.length).sublist (List.take_sublist k _)
    have stable := StableSort.pairwise_mergeSort_stable (StableSort.descending_trans moved)
      (StableSort.descending_total moved) lexicographic
    refine stable.imp fun {p q} h => ?_
    simp only [decide_eq_true_eq] at h
    exact ⟨h.1, fun same => h.2 same.le⟩

/-- Three versions with a move from the first to the last, and a run that is cancelled after two comparisons. -/
theorem rankUntil_cancelled_after_two :
    let versions : List Coordinate := [⟨"g", "a", "1"⟩, ⟨"g", "a", "2"⟩, ⟨"g", "a", "3"⟩]
    let m : UsageMatrix := {
      versions
      clients := Std.ExtTreeSet.ofList [⟨"x", "c"⟩] compare
      cells := (∅ : Std.ExtTreeMap Cell String Cell.order).insert (⟨"g", "a", "1"⟩, ⟨"x", "c"⟩) "1"
        |>.insert (⟨"g", "a", "3"⟩, ⟨"x", "c"⟩) "2" }
    StopsAt (fun i => 2 ≤ i) (versions.length * (versions.length - 1) / 2) 2 ∧
    RanksFirst versions m m.clients 2 (rankUntil (fun i => 2 ≤ i) versions m m.clients) ∧
    (rankUntil (fun i => 2 ≤ i) versions m m.clients).Sublist (rankUntil (fun _ => false) versions m m.clients) := by
  intro versions m
  have stops : StopsAt (fun i => 2 ≤ i) (versions.length * (versions.length - 1) / 2) 2 :=
    ⟨by decide, by decide, by decide⟩
  exact ⟨stops, rankUntil_ranksFirst versions m m.clients stops⟩

end Ranking

end Candidate
end MigrationMining
