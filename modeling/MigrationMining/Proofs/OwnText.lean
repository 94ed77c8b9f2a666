import MigrationMining.Proofs.FileText
import MigrationMining.Proofs.StoredAdaptations

/-! Releases that are named by their own text: which they are, and that whatever is read, from a text or from a stored file,
names them only. So what has been read once is read again from what is written of it. -/

namespace MigrationMining

namespace Coordinate

/-- No field is empty or has a colon, and no white space stands before the group or after the version. -/
structure SelfNamed (c : Coordinate) : Prop where
  nonempty : c.group ≠ "" ∧ c.artifact ≠ "" ∧ c.version ≠ ""
  separate : ':' ∉ c.group.toList ∧ ':' ∉ c.artifact.toList ∧ ':' ∉ c.version.toList
  first : ∀ ch ∈ c.group.toList.head?, ¬ Text.isBlank ch
  last : ∀ ch ∈ c.version.toList.getLast?, ¬ Text.isBlank ch

variable {c : Coordinate} {s : String}

theorem selfNamed_iff_readable : c.SelfNamed ↔ c.Readable := by
  have ends (group : c.group.toList ≠ []) (version : c.version.toList ≠ []) : Text.Trimmed c.text.toList ↔
      (∀ ch ∈ c.group.toList.head?, ¬ Text.isBlank ch) ∧ ∀ ch ∈ c.version.toList.getLast?, ¬ Text.isBlank ch := by
    rw [toList_text]
    exact Text.trimmed_joinWith_iff group version [c.artifact.toList]
  constructor
  · rintro ⟨nonempty, separate, first, last⟩
    have filled : c.group.toList ≠ [] ∧ c.artifact.toList ≠ [] ∧ c.version.toList ≠ [] := by simpa using nonempty
    exact ⟨filled, separate, (ends filled.1 filled.2.2).2 ⟨first, last⟩⟩
  · rintro ⟨nonempty, separate, trimmed⟩
    obtain ⟨first, last⟩ := (ends nonempty.1 nonempty.2.2).1 trimmed
    exact ⟨by simpa using nonempty, separate, first, last⟩

theorem selfNamed_of_parse (h : parse s = .ok c) : c.SelfNamed := selfNamed_iff_readable.2 (readable_of_parse h)

theorem parse_text_eq_ok_iff : parse c.text = .ok c ↔ c.SelfNamed :=
  ⟨selfNamed_of_parse, fun h => parse_text (selfNamed_iff_readable.1 h)⟩

theorem parse_extended (h : c.SelfNamed) {middle : List String} (few : middle.length ≤ 2)
    (separate : ∀ field ∈ middle, ':' ∉ field.toList) :
    parse (":".intercalate (c.group :: c.artifact :: (middle ++ [c.version]))) = .ok c := by
  obtain ⟨nonempty, apart, -⟩ := selfNamed_iff_readable.1 h
  have chars : (":".intercalate (c.group :: c.artifact :: (middle ++ [c.version]))).toList = Text.joinWith [':']
      (c.group.toList :: ((c.artifact.toList :: middle.map String.toList) ++ [c.version.toList])) := by
    have colon : ":".toList = [':'] := rfl
    rw [String.toList_intercalate, Text.joinWith_eq_intercalate, colon]
    simp
  refine parse_eq_ok_iff.2 ⟨c.group.toList, c.artifact.toList, c.version.toList, middle.map String.toList, ?_, by simpa,
    nonempty.1, nonempty.2.1, nonempty.2.2, by simp⟩
  rw [chars, Text.trim_of_trimmed ((Text.trimmed_joinWith_iff nonempty.1 nonempty.2.2 _).2 ⟨h.first, h.last⟩)]
  refine Text.splitOn_joinWith (by simp) fun field listed => ?_
  simp only [List.cons_append, List.mem_cons, List.mem_append, List.mem_map, List.not_mem_nil, or_false] at listed
  rcases listed with rfl | rfl | ⟨m, listed, rfl⟩ | rfl
  · exact apart.1
  · exact apart.2.1
  · exact separate m listed
  · exact apart.2.2

end Coordinate

namespace DatasetFiles

theorem parseCandidates_again {text : String} {cs : List Candidate} (h : parseCandidates text = .ok cs) :
    parseCandidates (candidatesText cs) = .ok cs :=
  parseCandidates_candidatesText.2 (storable_of_parseCandidates h)

theorem parseAdaptations_again {text : String} {as : List Adaptation} (h : parseAdaptations text = .ok as) :
    parseAdaptations (adaptationsText as) = .ok as :=
  parseAdaptations_adaptationsText.2 (storable_of_parseAdaptations h)

theorem readCandidates_again {fs fs' : FileStore} {dir : Path} {cs : List Candidate}
    (h : readCandidates fs dir = .ok cs) (saved : fs.save (dir / candidatesName) (candidatesText cs) = .ok fs') :
    readCandidates fs' dir = .ok cs := by
  unfold readCandidates at h
  split at h
  · rw [readCandidates, FileStore.readText_of_save saved]
    exact parseCandidates_again h
  · cases h

end DatasetFiles

open DatasetFiles in
/-- The text of a release names it if and only if it is self-named, and no text names another one, with or without fields
that are passed over. Candidates and adaptations that have been read are read again from the text that is written of them,
and candidates also from the file that they are saved to. -/
theorem named_by_own_text :
    (∀ c : Coordinate, Coordinate.parse c.text = .ok c ↔ c.SelfNamed) ∧
    (∀ s c, Coordinate.parse s = .ok c → c.SelfNamed ∧ Coordinate.parse c.text = .ok c) ∧
    (∀ (c : Coordinate) (middle : List String), c.SelfNamed → middle.length ≤ 2 → (∀ field ∈ middle, ':' ∉ field.toList) →
      Coordinate.parse (":".intercalate (c.group :: c.artifact :: (middle ++ [c.version]))) = .ok c) ∧
    (∀ text cs, parseCandidates text = .ok cs → parseCandidates (candidatesText cs) = .ok cs) ∧
    (∀ text as, parseAdaptations text = .ok as → parseAdaptations (adaptationsText as) = .ok as) ∧
    ∀ (fs fs' : FileStore) (dir : Path) (cs : List Candidate), readCandidates fs dir = .ok cs →
      fs.save (dir / candidatesName) (candidatesText cs) = .ok fs' → readCandidates fs' dir = .ok cs := by
  refine ⟨fun c => Coordinate.parse_text_eq_ok_iff, fun s c named => ?_, fun c middle self few separate => ?_,
    fun text cs => parseCandidates_again, fun text as => parseAdaptations_again,
    fun fs fs' dir cs => readCandidates_again⟩
  · have self := Coordinate.selfNamed_of_parse named
    exact ⟨self, Coordinate.parse_text_eq_ok_iff.2 self⟩
  · exact Coordinate.parse_extended self few separate

/-- White space around an extended text, and releases that are written as extended texts in stored records without names,
some of them in a file. -/
theorem named_by_own_text_of_extended :
    let c : Coordinate := ⟨"g", "a b", "1"⟩
    let cs : List Candidate := [⟨⟨"g", "a", "1"⟩, ⟨"g", "a", "2"⟩, 0, [], []⟩]
    let as : List Adaptation := [⟨⟨⟨"x", "c", "1"⟩, ⟨"x", "c", "2"⟩, ⟨"g", "a"⟩, .added⟩, "m", "f", [], ["f"]⟩]
    let file : Path := (⟨"d"⟩ : Path) / DatasetFiles.candidatesName
    (Coordinate.parse "\u2003g:a b:jar:sources:1\n" = .ok c ∧ c.SelfNamed ∧ Coordinate.parse c.text = .ok c ∧
        Coordinate.parse (":".intercalate ["g", "a b", "", "1"]) = .ok c) ∧
      (DatasetFiles.parseCandidates "[[\"g:a:1\", \"g:a:jar:2 \", 0, [], []]]" = .ok cs ∧
        DatasetFiles.parseCandidates (DatasetFiles.candidatesText cs) = .ok cs) ∧
      (DatasetFiles.parseAdaptations
          "[[\"x:c:1\",\"x:c:jar:2\",\" g:a\",\"m\",\"f\",\"ADDED\",[],[\"f\"]]]" = .ok as ∧
        DatasetFiles.parseAdaptations (DatasetFiles.adaptationsText as) = .ok as) ∧
      ∃ fs fs' : FileStore, DatasetFiles.readCandidates fs ⟨"d"⟩ = .ok cs ∧
        fs.save file (DatasetFiles.candidatesText cs) = .ok fs' ∧ DatasetFiles.readCandidates fs' ⟨"d"⟩ = .ok cs := by
  intro c cs as file
  obtain ⟨-, texts, extended, candidates, adaptations, files⟩ := named_by_own_text
  have named : Coordinate.parse "\u2003g:a b:jar:sources:1\n" = .ok c := by decide +kernel
  have read : DatasetFiles.parseCandidates "[[\"g:a:1\", \"g:a:jar:2 \", 0, [], []]]" = .ok cs := by decide +kernel
  have readAdaptations : DatasetFiles.parseAdaptations
      "[[\"x:c:1\",\"x:c:jar:2\",\" g:a\",\"m\",\"f\",\"ADDED\",[],[\"f\"]]]" = .ok as := by decide +kernel
  obtain ⟨self, again⟩ := texts _ _ named
  refine ⟨⟨named, self, again, extended c [""] self (by decide) (by simp)⟩, ⟨read, candidates _ _ read⟩,
    ⟨readAdaptations, adaptations _ _ readAdaptations⟩, ?_⟩
  have writable : (FileStore.save {} file "[[\"g:a:1\", \"g:a:jar:2 \", 0, [], []]]" >>=
      (·.save file (DatasetFiles.candidatesText cs))).isOk := by decide +kernel
  cases saved : FileStore.save {} file "[[\"g:a:1\", \"g:a:jar:2 \", 0, [], []]]" >>=
      (·.save file (DatasetFiles.candidatesText cs)) with
  | error e =>
    rw [saved] at writable
    cases writable
  | ok fs' =>
    obtain ⟨fs, first, second⟩ := bind_eq_ok_iff.1 saved
    have held : DatasetFiles.readCandidates fs ⟨"d"⟩ = .ok cs := by
      rw [DatasetFiles.readCandidates, FileStore.readText_of_save first]
      exact read
    exact ⟨fs, fs', held, second, files _ _ _ _ held second⟩

end MigrationMining
