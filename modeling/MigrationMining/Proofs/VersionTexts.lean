import MigrationMining.Proofs.Occurrences
import MigrationMining.Proofs.Pieces
import MigrationMining.ReleaseIndex

/-! Which versions a metadata document is read to list: the texts of the version elements in its first block, trimmed,
but for an element of nothing but white space, of which the last character is listed as a version. -/

namespace MigrationMining

namespace ReleaseIndex

open Text

/-- What is listed for an element: its text trimmed, and the last character of a blank one. -/
def reading (t : List Char) : List Char := if trim t = [] then t.drop (t.length - 1) else trim t

variable {t : List Char}

theorem version?_eq (t : List Char) : version? t = if t = [] then none else some (reading t) := by
  rcases t.eq_nil_or_concat' with rfl | ⟨r, c, rfl⟩
  · rfl
  · rw [version?, List.getLast?_concat, if_neg (by simp), reading]
    simp only [← trim_eq_nil_iff]
    split
    · simp
    · rfl

theorem reading_of_trimmed (solid : trim t ≠ []) : reading t = trim t := if_neg solid

theorem reading_ne_nil (filled : t ≠ []) : reading t ≠ [] := by
  rw [reading]
  split
  · have := List.length_pos_iff.2 filled
    rw [Ne, List.drop_eq_nil_iff]
    omega
  · assumption

theorem trimmed_reading_iff (filled : t ≠ []) : Trimmed (reading t) ↔ trim t ≠ [] := by
  constructor
  · intro trimmed blank
    rw [reading, if_pos blank] at trimmed
    obtain ⟨r, c, rfl⟩ := t.eq_nil_or_concat'.resolve_left filled
    have last : isBlank c := List.all_eq_true.1 (trim_eq_nil_iff.1 blank) c (by simp)
    exact trimmed.1 c (by simp) last
  · intro solid
    rw [reading_of_trimmed solid]
    exact trimmed_trim t

/-- These are the texts of the version elements of the document, in its order: of those in the first `versions` block
that is left when the comments are taken out. -/
inductive Lists (cs : List Char) : List (List Char) → Prop where
  | block {text : List Char} {s : Span} {ts : List (List Char)} (uncommented : Span.Removed .comment cs text)
      (first : Span.IsFirst (.element "versions") text s) (texts : Leaf.AreTexts "version" s.inside ts) : Lists cs ts
  | noBlock {text : List Char} (uncommented : Span.Removed .comment cs text)
      (absent : ∀ s : Span, text ≠ s.around (.element "versions")) : Lists cs []

def texts (cs : List Char) : List (List Char) :=
  match Span.first? (.element "versions") (Span.removeAll .comment cs) with
  | none => []
  | some s => Leaf.rawTexts (.element "version") s.inside

variable {cs : List Char} {ts : List (List Char)}

theorem lists_iff : Lists cs ts ↔ ts = texts cs := by
  constructor
  · rintro (⟨uncommented, first, read⟩ | ⟨uncommented, absent⟩)
    · rw [texts, Span.removed_iff.1 uncommented, Span.first?_eq_some_iff.2 first]
      exact (Leaf.areTexts_iff.1 read).symm
    · rw [texts, Span.removed_iff.1 uncommented, Span.first?_eq_none_iff.2 absent]
  · rintro rfl
    rw [texts]
    split
    · next absent => exact .noBlock (Span.removed_iff.2 rfl) (Span.first?_eq_none_iff.1 absent)
    · next s found =>
      exact .block (Span.removed_iff.2 rfl) (Span.first?_eq_some_iff.1 found) (Leaf.areTexts_rawTexts _ _)

theorem versionsOf_eq (cs : List Char) : versionsOf cs = ((texts cs).filter (· ≠ [])).map reading := by
  have read : versionsOf cs = (texts cs).filterMap version? := by
    rw [versionsOf, texts, Span.firstInside?]
    cases Span.first? (.element "versions") (Span.removeAll .comment cs) <;> rfl
  rw [read, ← List.filterMap_eq_map, List.filterMap_filter]
  refine List.filterMap_congr fun t _ => ?_
  rw [version?_eq]
  by_cases empty : t = [] <;> simp [empty]

theorem trimmed_versionsOf_iff :
    (∀ v ∈ versionsOf cs, Trimmed v) ↔ ∀ t ∈ texts cs, trim t = [] → t = [] := by
  rw [versionsOf_eq, List.forall_mem_map]
  simp only [List.mem_filter, decide_eq_true_eq, and_imp]
  refine forall₂_congr fun t _ => ⟨fun trimmed blank => ?_, fun solid filled => ?_⟩
  · by_contra filled
    exact (trimmed_reading_iff filled).1 (trimmed filled) blank
  · exact (trimmed_reading_iff filled).2 fun blank => filled (solid blank)

theorem versionsOf_eq_trimmed_iff :
    versionsOf cs = ((texts cs).map trim).filter (· ≠ []) ↔ ∀ t ∈ texts cs, trim t = [] → t = [] := by
  constructor
  · intro same
    refine trimmed_versionsOf_iff.1 fun v mem => ?_
    rw [same] at mem
    obtain ⟨t, -, rfl⟩ := List.mem_map.1 (List.mem_of_mem_filter mem)
    exact trimmed_trim t
  · intro solid
    have alike : ∀ t ∈ texts cs, decide (t ≠ []) = decide (trim t ≠ []) := by
      intro t mem
      rw [decide_eq_decide, not_iff_not]
      refine ⟨?_, solid t mem⟩
      rintro rfl
      rfl
    rw [versionsOf_eq, List.filter_map, List.filter_congr alike]
    refine List.map_congr_left fun t mem => reading_of_trimmed ?_
    simpa using (List.mem_filter.1 mem).2

/-- A document lists a version for each of its version elements that has any text. These are the trimmed texts, and
each of them is free of white space at its ends, exactly if no element has a text of nothing but white space. -/
theorem versions_trimmed_iff (xml : String) : ∃ ts : List (List Char), (∀ us, Lists xml.toList us ↔ us = ts) ∧
    (versions xml).map (·.toList) = (ts.filter (· ≠ [])).map reading ∧
    (∀ v ∈ versions xml, v ≠ "") ∧
    ((versions xml).map (·.toList) = (ts.map trim).filter (· ≠ []) ↔ ∀ t ∈ ts, trim t = [] → t = []) ∧
    ((∀ v ∈ versions xml, Trimmed v.toList) ↔ ∀ t ∈ ts, trim t = [] → t = []) := by
  have listed : (versions xml).map (·.toList) = versionsOf xml.toList := by
    simp [versions, List.map_map, Function.comp_def]
  refine ⟨texts xml.toList, fun us => lists_iff, ?_, fun v mem => ?_, ?_, ?_⟩
  · rw [listed, versionsOf_eq]
  · have chars : v.toList ∈ versionsOf xml.toList := listed ▸ List.mem_map_of_mem mem
    rw [versionsOf_eq] at chars
    obtain ⟨t, filled, read⟩ := List.mem_map.1 chars
    have ne := reading_ne_nil (show t ≠ [] by simpa using (List.mem_filter.1 filled).2)
    rintro rfl
    exact ne read
  · rw [listed, versionsOf_eq_trimmed_iff]
  · rw [← trimmed_versionsOf_iff, ← listed, List.forall_mem_map]

def blankVersion : String := "<versions><version> </version></versions>"

/-- The only version element is blank, and its last character is listed as a version. -/
theorem blank_version_listed : Lists blankVersion.toList [[' ']] ∧ versions blankVersion = [" "] ∧
    ([[' ']].map trim).filter (· ≠ []) = [] ∧ ¬ Trimmed " ".toList := by
  refine ⟨lists_iff.2 ?_, ?_, rfl, ?_⟩
  · decide +kernel
  · decide +kernel
  · exact fun trimmed => trimmed.1 ' ' rfl rfl

end ReleaseIndex
end MigrationMining
