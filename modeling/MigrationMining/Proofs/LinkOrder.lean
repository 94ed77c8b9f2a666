import Mathlib.Data.List.Sort
import Mathlib.Logic.Equiv.Basic
import MigrationMining.DatasetFiles
import MigrationMining.Proofs.ClientMoves
import MigrationMining.Proofs.LinkTally

/-! Links may be collected in another order: as long as the links of each cell keep theirs, the usage matrix and all that
is made of it stay the same. -/

namespace MigrationMining

/-- One list of links is a permutation of another in which links of the same cell keep their relative order. -/
def Reordered (xs ys : List Link) : Prop :=
  ∃ position : Fin xs.length ≃ Fin ys.length, (∀ i, ys[position i] = xs[i]) ∧
    ∀ i j, i < j → UsageMatrix.Cell.ofLink xs[i] = UsageMatrix.Cell.ofLink xs[j] → position i < position j

section Positions

variable {α : Type}

def positionsOf (p : α → Bool) (xs : List α) : List (Fin xs.length) := (List.finRange xs.length).filter fun i => p xs[i]

theorem filter_eq_map_positionsOf (p : α → Bool) (xs : List α) : xs.filter p = (positionsOf p xs).map (xs[·]) := by
  conv_lhs => rw [← List.map_get_finRange xs, List.filter_map]
  rfl

theorem ascending_positionsOf (p : α → Bool) (xs : List α) : (positionsOf p xs).Pairwise (· < ·) :=
  (List.pairwise_lt_finRange xs.length).filter _

theorem mem_positionsOf {p : α → Bool} {xs : List α} {i : Fin xs.length} : i ∈ positionsOf p xs ↔ p xs[i] := by
  simp [positionsOf]

end Positions

def linksOfCell (links : List Link) (cell : Cell) : List Link := links.filter (UsageMatrix.Cell.ofLink · = cell)

theorem lastClient?_eq_getLast? (links : List Link) (library : Coordinate) (client : Project) :
    lastClient? links library client = (linksOfCell links (library, client)).getLast?.map (·.client) := by
  have sameTest : (fun link : Link => decide (link.library = library ∧ link.client.project = client)) =
      fun link => decide (UsageMatrix.Cell.ofLink link = (library, client)) := by
    funext link
    simp [UsageMatrix.Cell.ofLink]
  rw [lastClient?, linksOfCell, sameTest, ← List.head?_reverse, ← List.filter_reverse, List.head?_filter]

namespace Reordered

variable {xs ys : List Link}

theorem linksOfCell_eq (h : Reordered xs ys) (cell : Cell) : linksOfCell xs cell = linksOfCell ys cell := by
  obtain ⟨position, same, ordered⟩ := h
  let inCell : Link → Bool := fun link => UsageMatrix.Cell.ofLink link = cell
  have ofCell {i : Fin xs.length} (mem : i ∈ positionsOf inCell xs) : UsageMatrix.Cell.ofLink xs[i] = cell := by
    simpa [inCell] using mem_positionsOf.1 mem
  have ascending : ((positionsOf inCell xs).map position).Pairwise (· < ·) := by
    refine List.pairwise_map.2 ((ascending_positionsOf inCell xs).imp_of_mem fun {i j} hi hj lt => ?_)
    exact ordered i j lt ((ofCell hi).trans (ofCell hj).symm)
  have moved : (positionsOf inCell xs).map position = positionsOf inCell ys := by
    refine ascending.eq_of_mem_iff (ascending_positionsOf inCell ys) fun {j} => ?_
    have back : ys[j] = xs[position.symm j] := by simpa using same (position.symm j)
    simp only [List.mem_map, mem_positionsOf, back]
    constructor
    · rintro ⟨i, hi, rfl⟩
      simpa using hi
    · exact fun hj => ⟨position.symm j, hj, by simp⟩
  calc linksOfCell xs cell = (positionsOf inCell xs).map (xs[·]) := filter_eq_map_positionsOf inCell xs
    _ = (positionsOf inCell xs).map fun i => ys[position i] := by simp only [same]
    _ = ((positionsOf inCell xs).map position).map (ys[·]) := by rw [List.map_map]; rfl
    _ = (positionsOf inCell ys).map (ys[·]) := by rw [moved]
    _ = linksOfCell ys cell := (filter_eq_map_positionsOf inCell ys).symm

theorem perm (h : Reordered xs ys) : xs.Perm ys := by
  refine List.perm_iff_count.2 fun link => ?_
  have counted (links : List Link) : links.count link = (linksOfCell links (UsageMatrix.Cell.ofLink link)).count link := by
    rw [linksOfCell, List.count_filter]
    simp
  rw [counted xs, counted ys, h.linksOfCell_eq]

theorem clients_eq (h : Reordered xs ys) :
    (Std.ExtTreeSet.ofList (xs.map (·.client.project)) compare : ProjectSet) =
      Std.ExtTreeSet.ofList (ys.map (·.client.project)) compare := by
  refine Std.ExtTreeSet.ext_mem fun p => ?_
  simp [h.perm.mem_iff]

theorem build_eq (h : Reordered xs ys) (versions : List Coordinate) :
    (UsageMatrix.build versions xs).toOption = (UsageMatrix.build versions ys).toOption := by
  refine UsageMatrix.toOption_build_congr (fun library client => ?_) versions
  rw [lastClient?_eq_getLast?, lastClient?_eq_getLast?, h.linksOfCell_eq]

theorem tally_eq (h : Reordered xs ys) : Statistics.Tally.ofLinks xs = .ofLinks ys := by
  have counted (v : Coordinate) : linkCount xs v = linkCount ys v := h.perm.countP_eq _
  refine Std.ExtTreeMap.ext_getElem? fun v => ?_
  rw [Statistics.Tally.getElem?_ofLinks, Statistics.Tally.getElem?_ofLinks, counted]

theorem compute_eq (h : Reordered xs ys) (versions : List Coordinate) (candidates : List Candidate) :
    Statistics.compute versions xs candidates = Statistics.compute versions ys candidates := by
  simp only [Statistics.compute, h.tally_eq, h.clients_eq, h.perm.length_eq]

end Reordered

/-- What is made of versions and links: the matrix, its text, the candidates that are ranked before the run is found
cancelled, and the figures. -/
def mined (seen : Nat → Bool) (versions : List Coordinate) (links : List Link) :
    Except StrayLink (UsageMatrix × String × List Candidate × Statistics) := do
  let m ← UsageMatrix.build versions links
  let candidates := Candidate.rankUntil seen m.versions m m.clients
  return (m, DatasetFiles.matrixText m, candidates, Statistics.compute versions links candidates)

/-- From reordered links the same is made: both lists are refused, or both give the same matrix, the same text of it, the
same ranking and the same figures. -/
theorem mined_eq_of_reordered {xs ys : List Link} (h : Reordered xs ys) (seen : Nat → Bool)
    (versions : List Coordinate) :
    ((∃ stray, mined seen versions xs = .error stray) ∧ ∃ stray, mined seen versions ys = .error stray) ∨
      ∃ made, mined seen versions xs = .ok made ∧ mined seen versions ys = .ok made := by
  have built := h.build_eq versions
  unfold mined
  cases first : UsageMatrix.build versions xs with
  | error stray =>
    cases second : UsageMatrix.build versions ys with
    | error stray' => exact .inl ⟨⟨stray, rfl⟩, stray', rfl⟩
    | ok m => simp [first, second, Except.toOption] at built
  | ok m =>
    cases second : UsageMatrix.build versions ys with
    | error stray => simp [first, second, Except.toOption] at built
    | ok m' =>
      have same : m = m' := by simpa [first, second, Except.toOption] using built
      subst same
      refine .inr ⟨_, rfl, ?_⟩
      simp only [h.compute_eq]
      rfl

/-- The link of another client comes first, and the two links of the first client to the same release keep their order. -/
theorem mined_of_client_moved_to_front :
    let versions : List Coordinate := [⟨"g", "a", "1"⟩, ⟨"g", "a", "2"⟩]
    let earlier : Link := ⟨⟨"g", "a", "2"⟩, ⟨"x", "c", "1"⟩⟩
    let later : Link := ⟨⟨"g", "a", "2"⟩, ⟨"x", "c", "2"⟩⟩
    let first : Link := ⟨⟨"g", "a", "1"⟩, ⟨"x", "c", "1"⟩⟩
    let other : Link := ⟨⟨"g", "a", "2"⟩, ⟨"y", "d", "1"⟩⟩
    Reordered [first, earlier, later, other] [other, earlier, later, first] ∧
      ∃ made, mined (fun _ => false) versions [first, earlier, later, other] = .ok made ∧
        mined (fun _ => false) versions [other, earlier, later, first] = .ok made := by
  intro versions earlier later first other
  have reordered : Reordered [first, earlier, later, other] [other, earlier, later, first] :=
    ⟨Equiv.swap 0 3, by decide, by decide⟩
  have accepted : (mined (fun _ => false) versions [first, earlier, later, other]).toOption.isSome := by decide +kernel
  refine ⟨reordered, (mined_eq_of_reordered reordered (fun _ => false) versions).resolve_left ?_⟩
  rintro ⟨⟨stray, refused⟩, -⟩
  rw [refused] at accepted
  cases accepted

end MigrationMining
