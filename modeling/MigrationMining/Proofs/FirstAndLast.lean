/-! The first and the last item of a list that have a property, told by how the list is split at them. -/

namespace MigrationMining

variable {α : Type} {p : α → Prop} {xs : List α} {a b : α}

def IsFirst (p : α → Prop) (xs : List α) (a : α) : Prop :=
  p a ∧ ∃ before after, xs = before ++ a :: after ∧ ∀ b ∈ before, ¬ p b

def IsLast (p : α → Prop) (xs : List α) (a : α) : Prop :=
  p a ∧ ∃ before after, xs = before ++ a :: after ∧ ∀ b ∈ after, ¬ p b

theorem IsFirst.mem (h : IsFirst p xs a) : a ∈ xs := by
  obtain ⟨-, before, after, rfl, -⟩ := h
  simp

theorem isFirst_reverse : IsFirst p xs.reverse a ↔ IsLast p xs a := by
  refine and_congr_right fun _ => ⟨?_, ?_⟩
  · rintro ⟨before, after, split, none⟩
    refine ⟨after.reverse, before.reverse, ?_, by simpa using none⟩
    rw [← xs.reverse_reverse, split]
    simp
  · rintro ⟨before, after, rfl, none⟩
    exact ⟨after.reverse, before.reverse, by simp, by simpa using none⟩

section Decidable

variable [DecidablePred p]

theorem find?_eq_some_iff_isFirst : xs.find? (p ·) = some a ↔ IsFirst p xs a := by
  simp [List.find?_eq_some_iff_append, IsFirst]

theorem find?_reverse_eq_some_iff_isLast : xs.reverse.find? (p ·) = some a ↔ IsLast p xs a :=
  find?_eq_some_iff_isFirst.trans isFirst_reverse

theorem IsFirst.eq (h : IsFirst p xs a) (h' : IsFirst p xs b) : a = b :=
  Option.some.inj ((find?_eq_some_iff_isFirst.2 h).symm.trans (find?_eq_some_iff_isFirst.2 h'))

theorem exists_isLast (mem : a ∈ xs) (here : p a) : ∃ b, IsLast p xs b := by
  have found : (xs.reverse.find? (p ·)).isSome := List.find?_isSome.2 ⟨a, by simpa using mem, by simpa using here⟩
  obtain ⟨b, found⟩ := Option.isSome_iff_exists.1 found
  exact ⟨b, find?_reverse_eq_some_iff_isLast.1 found⟩

end Decidable
end MigrationMining
