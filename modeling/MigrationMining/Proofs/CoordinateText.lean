import MigrationMining.Coordinate
import MigrationMining.Proofs.Pieces

/-! Which texts name a project or a release, and which of them are named by the text they are written as. -/

namespace MigrationMining

namespace Project

theorem parse_eq_ok_iff {s : String} {p : Project} :
    parse s = .ok p ↔ ∃ g a, Text.splitOn ':' (Text.trim s.toList) = [g, a] ∧ g ≠ [] ∧ a ≠ [] ∧
      p = ⟨.ofList g, .ofList a⟩ := by
  unfold parse
  constructor
  · intro h
    split at h
    case h_1 g a fields =>
      split at h
      · cases h
      · rename_i hne
        simp only [Bool.or_eq_true, List.isEmpty_iff, not_or] at hne
        exact ⟨g, a, fields, hne.1, hne.2, (Except.ok.inj h).symm⟩
    case h_2 => cases h
  · rintro ⟨g, a, fields, hg, ha, rfl⟩
    rw [fields]
    simp [hg, ha]

/-- What holds of a project that some text names. -/
structure Readable (p : Project) : Prop where
  nonempty : p.group.toList ≠ [] ∧ p.artifact.toList ≠ []
  separate : ':' ∉ p.group.toList ∧ ':' ∉ p.artifact.toList
  trimmed : Text.Trimmed p.text.toList

theorem toList_text (p : Project) : p.text.toList = Text.joinWith [':'] [p.group.toList, p.artifact.toList] := by
  have colon : ":".toList = [':'] := rfl
  simp [text, Text.joinWith, colon]

theorem parse_text {p : Project} (h : p.Readable) : parse p.text = .ok p := by
  refine parse_eq_ok_iff.2 ⟨p.group.toList, p.artifact.toList, ?_, h.nonempty.1, h.nonempty.2, by simp⟩
  rw [Text.trim_of_trimmed h.trimmed, toList_text]
  apply Text.splitOn_joinWith (by simp)
  simpa using h.separate

theorem readable_of_parse {s : String} {p : Project} (h : parse s = .ok p) : p.Readable := by
  obtain ⟨g, a, fields, hg, ha, rfl⟩ := parse_eq_ok_iff.1 h
  have separate : ∀ field ∈ [g, a], ':' ∉ field := by
    intro field hf
    rw [← fields] at hf
    exact Text.notMem_of_mem_splitOn hf
  have whole : Text.joinWith [':'] [g, a] = Text.trim s.toList := by
    rw [← fields, Text.joinWith_splitOn]
  refine ⟨by simp [hg, ha], by simpa using ⟨separate g (by simp), separate a (by simp)⟩, ?_⟩
  rw [toList_text]
  simpa [whole] using Text.trimmed_trim s.toList

end Project

namespace Coordinate

/-- A text names a release by its first two fields and its last one; at most two fields stand between them. -/
theorem parse_eq_ok_iff {s : String} {c : Coordinate} :
    parse s = .ok c ↔ ∃ g a v middle, Text.splitOn ':' (Text.trim s.toList) = g :: a :: (middle ++ [v]) ∧
      middle.length ≤ 2 ∧ g ≠ [] ∧ a ≠ [] ∧ v ≠ [] ∧ c = ⟨.ofList g, .ofList a, .ofList v⟩ := by
  unfold parse
  constructor
  · intro h
    have named : ∀ g a v : List Char,
        (if g.isEmpty || a.isEmpty || v.isEmpty then (.error (.emptyField s) : Except MalformedName Coordinate)
          else .ok ⟨.ofList g, .ofList a, .ofList v⟩) = .ok c →
        g ≠ [] ∧ a ≠ [] ∧ v ≠ [] ∧ c = ⟨.ofList g, .ofList a, .ofList v⟩ := by
      intro g a v h
      split at h
      · cases h
      · rename_i hne
        simp only [Bool.or_eq_true, List.isEmpty_iff, not_or] at hne
        exact ⟨hne.1.1, hne.1.2, hne.2, (Except.ok.inj h).symm⟩
    split at h
    case h_1 g a v fields => exact ⟨g, a, v, [], fields, by simp, named g a v h⟩
    case h_2 g a x v fields => exact ⟨g, a, v, [x], fields, by simp, named g a v h⟩
    case h_3 g a x y v fields => exact ⟨g, a, v, [x, y], fields, by simp, named g a v h⟩
    case h_4 => cases h
  · rintro ⟨g, a, v, middle, fields, few, hg, ha, hv, rfl⟩
    rw [fields]
    match middle, few with
    | [], _ => simp [hg, ha, hv]
    | [x], _ => simp [hg, ha, hv]
    | [x, y], _ => simp [hg, ha, hv]

theorem toOption_parse_eq_some_iff {s : String} {c : Coordinate} :
    (parse s).toOption = some c ↔ parse s = .ok c := by
  cases parse s <;> simp [Except.toOption]

/-- What holds of a release that some text names. -/
structure Readable (c : Coordinate) : Prop where
  nonempty : c.group.toList ≠ [] ∧ c.artifact.toList ≠ [] ∧ c.version.toList ≠ []
  separate : ':' ∉ c.group.toList ∧ ':' ∉ c.artifact.toList ∧ ':' ∉ c.version.toList
  trimmed : Text.Trimmed c.text.toList

theorem toList_text (c : Coordinate) :
    c.text.toList = Text.joinWith [':'] [c.group.toList, c.artifact.toList, c.version.toList] := by
  have colon : ":".toList = [':'] := rfl
  simp [text, Text.joinWith, colon]

theorem parse_text {c : Coordinate} (h : c.Readable) : parse c.text = .ok c := by
  refine parse_eq_ok_iff.2 ⟨c.group.toList, c.artifact.toList, c.version.toList, [], ?_, by simp, h.nonempty.1,
    h.nonempty.2.1, h.nonempty.2.2, by simp⟩
  rw [Text.trim_of_trimmed h.trimmed, toList_text]
  apply Text.splitOn_joinWith (by simp)
  simpa using h.separate

theorem readable_of_parse {s : String} {c : Coordinate} (h : parse s = .ok c) : c.Readable := by
  obtain ⟨g, a, v, middle, fields, -, hg, ha, hv, rfl⟩ := parse_eq_ok_iff.1 h
  have separate : ∀ p ∈ g :: a :: (middle ++ [v]), ':' ∉ p := by
    intro p hp
    rw [← fields] at hp
    exact Text.notMem_of_mem_splitOn hp
  have whole : Text.joinWith [':'] (g :: a :: (middle ++ [v])) = Text.trim s.toList := by
    rw [← fields, Text.joinWith_splitOn]
  refine ⟨by simp [hg, ha, hv], by simpa using ⟨separate g (by simp), separate a (by simp), separate v (by simp)⟩, ?_⟩
  have ends := (Text.trimmed_joinWith_iff hg hv (a :: middle)).1 (whole ▸ Text.trimmed_trim s.toList)
  simpa [toList_text] using (Text.trimmed_joinWith_iff hg hv [a]).2 ends

end Coordinate
end MigrationMining
