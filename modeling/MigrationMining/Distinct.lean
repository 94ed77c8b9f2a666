/-! Lists without repetitions: each item is kept at its first occurrence. -/

namespace MigrationMining

def distinct {α : Type} [DecidableEq α] : List α → List α
  | [] => []
  | x :: xs => x :: (distinct xs).filter (· ≠ x)

@[simp] theorem mem_distinct {α : Type} [DecidableEq α] {a : α} {xs : List α} : a ∈ distinct xs ↔ a ∈ xs := by
  induction xs with
  | nil => simp [distinct]
  | cons x xs ih =>
    by_cases h : a = x
    · simp [distinct, h]
    · simp [distinct, h, ih]

theorem nodup_distinct {α : Type} [DecidableEq α] (xs : List α) : (distinct xs).Nodup := by
  induction xs with
  | nil => exact List.nodup_nil
  | cons x xs ih => exact List.nodup_cons.2 ⟨by simp, ih.filter _⟩

end MigrationMining
