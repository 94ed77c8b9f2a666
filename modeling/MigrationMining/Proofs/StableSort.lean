import Mathlib.Data.List.Basic

/-! Merge sort is stable: items that are equal in the order stay as they stood, and leaving items out before sorting
leaves them out of the result. A list that is sorted by a key is determined by its items of each key. -/

namespace MigrationMining
namespace StableSort

variable {α : Type}

section Descending

variable (f : α → Nat) (a b c : α)

theorem descending_trans : decide (f b ≤ f a) → decide (f c ≤ f b) → decide (f c ≤ f a) := by
  simp only [decide_eq_true_eq]
  omega

theorem descending_total : decide (f b ≤ f a) || decide (f a ≤ f b) := by
  simp only [Bool.or_eq_true, decide_eq_true_eq]
  omega

end Descending

section Stable

variable {le : α → α → Bool}
variable (trans : ∀ a b c, le a b → le b c → le a c) (total : ∀ a b, le a b || le b a)

include trans total

theorem filter_mergeSort {p : α → Bool} (tied : ∀ a b, p a → p b → le a b) (xs : List α) :
    (xs.mergeSort le).filter p = xs.filter p := by
  have ordered : (xs.filter p).Pairwise fun a b => le a b :=
    List.pairwise_of_forall_mem_list fun a first b second => tied a b (List.mem_filter.1 first).2 (List.mem_filter.1 second).2
  have inside := (List.sublist_mergeSort trans total ordered List.filter_sublist).filter p
  have count := ((List.mergeSort_perm xs le).filter p).length_eq
  rw [List.filter_eq_self.2 fun a mem => (List.mem_filter.1 mem).2] at inside
  exact (inside.eq_of_length count.symm).symm

theorem mergeSort_cons_eq (x : α) (xs : List α) :
    (x :: xs).mergeSort le =
      (xs.mergeSort le).filter (fun y => !le x y) ++ x :: (xs.mergeSort le).filter (fun y => le x y) := by
  obtain ⟨front, back, whole, tail, before⟩ := List.mergeSort_cons trans total x xs
  have sorted := List.pairwise_mergeSort trans total (x :: xs)
  rw [whole] at sorted
  have after : ∀ y ∈ back, le x y := (List.pairwise_cons.1 (List.pairwise_append.1 sorted).2.1).1
  have not_after : ∀ y ∈ front, ¬ le x y := fun y hy => by simpa using before y hy
  rw [whole, tail, List.filter_append, List.filter_append, List.filter_eq_self.2 before,
    List.filter_eq_self.2 after, List.filter_eq_nil_iff.2 not_after,
    List.filter_eq_nil_iff.2 fun y hy => by simp [after y hy]]
  simp

theorem pairwise_mergeSort_stable {r : α → α → Prop} {xs : List α} (order : xs.Pairwise r) :
    (xs.mergeSort le).Pairwise fun a b => le a b ∧ (le b a → r a b) := by
  induction xs with
  | nil => simp
  | cons x xs ih =>
    obtain ⟨first, rest⟩ := List.pairwise_cons.1 order
    have sorted := List.pairwise_mergeSort trans total (x :: xs)
    rw [mergeSort_cons_eq trans total] at sorted ⊢
    obtain ⟨_, _, cross⟩ := List.pairwise_append.1 sorted
    refine List.pairwise_append.2 ⟨(ih rest).filter _, List.pairwise_cons.2 ⟨?_, (ih rest).filter _⟩, ?_⟩
    · intro y hy
      obtain ⟨hy, h⟩ := List.mem_filter.1 hy
      exact ⟨h, fun _ => first y (List.mem_mergeSort.1 hy)⟩
    · intro y hy z hz
      obtain ⟨_, h⟩ := List.mem_filter.1 hy
      refine ⟨cross y hy z hz, fun hzy => ?_⟩
      rcases List.mem_cons.1 hz with rfl | hz
      · simp [hzy] at h
      · have hxy := trans x z y (List.mem_filter.1 hz).2 hzy
        simp [hxy] at h

theorem mergeSort_sublist_of_sublist {xs ys : List α} (h : xs.Sublist ys) :
    (xs.mergeSort le).Sublist (ys.mergeSort le) := by
  induction h with
  | slnil => exact List.Sublist.refl _
  | @cons xs ys y h ih =>
    obtain ⟨front, back, whole, tail, _⟩ := List.mergeSort_cons trans total y ys
    rw [tail] at ih
    rw [whole]
    exact ih.middle y
  | cons_cons y h ih =>
    rw [mergeSort_cons_eq trans total y, mergeSort_cons_eq trans total y]
    exact (ih.filter _).append ((ih.filter _).cons_cons y)

end Stable

section ByKey

variable (key : α → String)

/-- Whether an item may stand before another one when items are sorted by a key. -/
def byKey (a b : α) : Bool := key a ≤ key b

theorem byKey_trans (a b c : α) (first : byKey key a b) (second : byKey key b c) : byKey key a c := by
  simp only [byKey, decide_eq_true_eq] at first second ⊢
  exact String.le_trans first second

theorem byKey_total (a b : α) : byKey key a b || byKey key b a := by
  simpa [byKey] using String.le_total (key a) (key b)

variable {key}

theorem byKey_of_lt {a b : α} (before : key a < key b) : byKey key a b := decide_eq_true (String.lt_asymm before)

theorem filter_mergeSort_byKey (xs : List α) (k : String) :
    (xs.mergeSort (byKey key)).filter (key · = k) = xs.filter (key · = k) := by
  refine filter_mergeSort (byKey_trans key) (byKey_total key) (fun a b first second => ?_) xs
  rw [decide_eq_true_eq] at first second
  simp [byKey, first, second]

theorem mem_iff_of_filter_eq {xs ys : List α} (same : ∀ k, xs.filter (key · = k) = ys.filter (key · = k)) (a : α) :
    a ∈ xs ↔ a ∈ ys := by
  simpa using congrArg (a ∈ ·) (same (key a))

theorem eq_of_filter_eq {xs ys : List α} (first : xs.Pairwise fun a b => byKey key a b)
    (second : ys.Pairwise fun a b => byKey key a b) (same : ∀ k, xs.filter (key · = k) = ys.filter (key · = k)) :
    xs = ys := by
  have mem := mem_iff_of_filter_eq same
  induction xs generalizing ys with
  | nil => exact (List.eq_nil_iff_forall_not_mem.2 fun a ha => List.not_mem_nil ((mem a).2 ha)).symm
  | cons x xs ih =>
    cases ys with
    | nil => exact absurd ((mem x).1 List.mem_cons_self) List.not_mem_nil
    | cons y ys =>
      obtain ⟨before, later⟩ := List.pairwise_cons.1 first
      obtain ⟨before', later'⟩ := List.pairwise_cons.1 second
      have keys : key x = key y := by
        refine String.le_antisymm ?_ ?_
        · rcases List.mem_cons.1 ((mem y).2 List.mem_cons_self) with rfl | held
          · exact String.le_refl _
          · simpa [byKey] using before y held
        · rcases List.mem_cons.1 ((mem x).1 List.mem_cons_self) with rfl | held
          · exact String.le_refl _
          · simpa [byKey] using before' x held
      obtain rfl : x = y := by simpa [keys] using congrArg List.head? (same (key y))
      have rest (k : String) : xs.filter (key · = k) = ys.filter (key · = k) := by
        have here := same k
        by_cases own : key x = k
        · simpa [own] using here
        · simpa [own] using here
      rw [ih later later' rest (mem_iff_of_filter_eq rest)]

end ByKey

end StableSort
end MigrationMining
