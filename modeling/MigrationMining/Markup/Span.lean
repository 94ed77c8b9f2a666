import MigrationMining.Text.Substitution

/-! Spans of a text between two delimiters. A span reaches from the leftmost opening delimiter to the first
closing one after it; spans do not nest. -/

namespace MigrationMining

structure Delimiters where
  opening : List Char
  closing : List Char
  opening_ne_nil : opening ≠ []

namespace Delimiters

def element (tag : String) : Delimiters :=
  ⟨'<' :: (tag.toList ++ ['>']), '<' :: '/' :: (tag.toList ++ ['>']), by simp⟩

def comment : Delimiters := ⟨['<', '!', '-', '-'], ['-', '-', '>'], by simp⟩

end Delimiters

structure Span where
  before : List Char
  inside : List Char
  after : List Char

theorem Text.eq_of_stripPrefix {p cs rest : List Char} (h : Text.stripPrefix p cs = some rest) :
    cs = p ++ rest := by
  induction p generalizing cs with
  | nil => simpa [Text.stripPrefix] using h
  | cons q p ih =>
    cases cs with
    | nil => simp [Text.stripPrefix] at h
    | cons c cs =>
      by_cases hq : q = c
      · simp only [Text.stripPrefix, hq, if_true] at h
        rw [ih h, hq, List.cons_append]
      · simp [Text.stripPrefix, hq] at h

theorem Text.eq_of_cutAt {p cs a b : List Char} (h : Text.cutAt p cs = some (a, b)) : cs = a ++ p ++ b := by
  induction cs generalizing a b with
  | nil =>
    unfold Text.cutAt at h
    split at h
    · simp_all
    · simp at h
  | cons c r ih =>
    unfold Text.cutAt at h
    split at h
    · next hp =>
      obtain ⟨t, ht⟩ := List.isPrefixOf_iff_prefix.1 hp
      simp only [Option.some.injEq, Prod.mk.injEq] at h
      obtain ⟨rfl, rfl⟩ := h
      simp [← ht]
    · obtain ⟨⟨x, y⟩, hxy, he⟩ := Option.map_eq_some_iff.1 h
      simp only [Prod.mk.injEq] at he
      obtain ⟨rfl, rfl⟩ := he
      rw [ih hxy, List.cons_append, List.cons_append]

namespace Span

def first? (d : Delimiters) (cs : List Char) : Option Span :=
  match Text.cutAt d.opening cs with
  | none => none
  | some (before, r) =>
    match Text.cutAt d.closing r with
    | none => none
    | some (inside, after) => some ⟨before, inside, after⟩

theorem eq_of_first? {d : Delimiters} {cs : List Char} {s : Span} (h : first? d cs = some s) :
    cs = s.before ++ d.opening ++ (s.inside ++ d.closing ++ s.after) := by
  unfold first? at h
  split at h
  · simp at h
  · next before r h₁ =>
    split at h
    · simp at h
    · next inside after h₂ =>
      cases h
      rw [Text.eq_of_cutAt h₁, Text.eq_of_cutAt h₂]

theorem length_after_lt {d : Delimiters} {cs : List Char} {s : Span} (h : first? d cs = some s) :
    s.after.length < cs.length := by
  have h₁ := congrArg List.length (eq_of_first? h)
  have h₂ : 0 < d.opening.length := List.length_pos_iff.2 d.opening_ne_nil
  simp at h₁
  omega

def insides (d : Delimiters) (cs : List Char) : List (List Char) :=
  match _h : first? d cs with
  | none => []
  | some s => s.inside :: insides d s.after
termination_by cs.length
decreasing_by exact length_after_lt _h

def removeAll (d : Delimiters) (cs : List Char) : List Char :=
  match _h : first? d cs with
  | none => cs
  | some s => s.before ++ removeAll d s.after
termination_by cs.length
decreasing_by exact length_after_lt _h

def removeFirst (d : Delimiters) (cs : List Char) : List Char :=
  match first? d cs with
  | none => cs
  | some s => s.before ++ s.after

def firstInside? (d : Delimiters) (cs : List Char) : Option (List Char) := (first? d cs).map (·.inside)

end Span

end MigrationMining
