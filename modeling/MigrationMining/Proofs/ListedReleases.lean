import MigrationMining.Proofs.ClientDependencies

/-! The releases that a dependency graph lists for a project, against all that its fields name and against the test
whether one release is listed. A listing passes over fields with white space before the name, and the test knows no
spelling but a release's own text. -/

namespace MigrationMining

def Text.isFlush (s : String) : Bool := !(s.toList.head?.any isBlank)

theorem Text.isFlush_iff {s : String} : isFlush s ↔ ∀ c ∈ s.toList.head?, ¬ isBlank c := by
  rw [isFlush]
  cases s.toList.head? <;> simp

theorem Text.trim_prefix_of_isFlush {s : String} (h : isFlush s) : trim s.toList <+: s.toList := by
  have whole : trimLeft s.toList = s.toList := trimLeft_of_head (isFlush_iff.1 h)
  rw [← List.reverse_suffix, trim, trimRight, List.reverse_reverse, whole]
  exact List.dropWhile_suffix isBlank

theorem Coordinate.project_prefix_of_parse {s : String} {c : Coordinate} (h : parse s = .ok c) :
    (c.project.text ++ ":").toList <+: Text.trim s.toList := by
  obtain ⟨g, a, v, middle, fields, -, -, -, -, rfl⟩ := parse_eq_ok_iff.1 h
  have colon : ":".toList = [':'] := rfl
  obtain ⟨q, qs, rest⟩ : ∃ q qs, middle ++ [v] = q :: qs := List.exists_cons_of_ne_nil (by simp)
  refine ⟨Text.joinWith [':'] (q :: qs), ?_⟩
  rw [← Text.joinWith_splitOn ':' (Text.trim s.toList), fields, rest]
  simp [project, Project.text, Text.joinWith, colon]

namespace DependencyGraph

variable {g : DependencyGraph} {fs : FileStore}

/-- A field that names a release mentions the release's project unless white space stands before the name. -/
theorem mentions_eq_isFlush {field : String} {c : Coordinate} (h : Coordinate.parse field = .ok c) :
    mentions c.project field = Text.isFlush field := by
  have start := Coordinate.project_prefix_of_parse h
  rw [Bool.eq_iff_iff, mentions, List.isPrefixOf_iff_prefix]
  constructor
  · intro mentioned
    obtain ⟨ch, name, starts⟩ : ∃ ch name, (c.project.text ++ ":").toList = ch :: name :=
      List.exists_cons_of_ne_nil (by simp)
    rw [starts] at start mentioned
    obtain ⟨rest, whole⟩ := mentioned
    obtain ⟨restOfName, wholeName⟩ := start
    have plain : ¬ Text.isBlank ch := (Text.trimmed_trim field.toList).1 ch (by rw [← wholeName]; rfl)
    simpa [Text.isFlush, ← whole] using plain
  · exact fun flush => start.trans (Text.trim_prefix_of_isFlush flush)

/-- The fields of the rows of releases, each source before its target. -/
def releaseFields (g : DependencyGraph) (fs : FileStore) : List String :=
  (g.rows releasesFile fs).1.flatMap fun r => [r.source, r.target]

def named? (p : Project) (field : String) : Option Coordinate :=
  (Coordinate.parse field).toOption.filter (·.project = p)

/-- All releases of a project that fields name, each once, in the order in which they are first named. -/
def namedReleases (g : DependencyGraph) (fs : FileStore) (p : Project) : List Coordinate :=
  distinct ((g.releaseFields fs).filterMap (named? p))

/-- The releases of a project field by field, marked where no white space stands before the name. -/
def namings (g : DependencyGraph) (fs : FileStore) (p : Project) : List (Bool × Coordinate) :=
  (g.releaseFields fs).filterMap fun field => (named? p field).map (Text.isFlush field, ·)

theorem named?_eq_some_iff {p : Project} {field : String} {c : Coordinate} :
    named? p field = some c ↔ Coordinate.parse field = .ok c ∧ c.project = p := by
  rw [named?, Option.filter_eq_some_iff, Coordinate.toOption_parse_eq_some_iff, decide_eq_true_eq]

theorem namedReleases_eq (g : DependencyGraph) (fs : FileStore) (p : Project) :
    g.namedReleases fs p = distinct ((g.namings fs p).map (·.2)) := by
  rw [namedReleases, namings, List.map_filterMap]
  congr 1
  refine List.filterMap_congr fun field _ => ?_
  cases named? p field <;> rfl

theorem releases_eq (g : DependencyGraph) (fs : FileStore) (p : Project) :
    (g.releases p fs).1 = distinct (marked (g.namings fs p)) := by
  simp only [releases, coordinates_fst, namings, marked]
  congr 1
  rw [List.filterMap_filter, List.filter_filterMap, List.filter_filterMap, List.map_filterMap]
  refine List.filterMap_congr fun field _ => ?_
  cases parsed : Coordinate.parse field with
  | error e => simp [named?, parsed, Except.toOption]
  | ok c =>
    by_cases ofProject : c.project = p
    · subst ofProject
      rw [mentions_eq_isFlush parsed]
      cases Text.isFlush field <;> simp [named?, parsed, Except.toOption, Option.filter]
    · cases mentions p field <;> simp [named?, parsed, Except.toOption, Option.filter, ofProject]

theorem mem_releases {p : Project} {c : Coordinate} : c ∈ (g.releases p fs).1 ↔
    c.project = p ∧ ∃ field ∈ g.releaseFields fs, Text.isFlush field ∧ Coordinate.parse field = .ok c := by
  rw [releases_eq, mem_distinct]
  simp only [marked, namings, List.mem_map, List.mem_filter, List.mem_filterMap, Option.map_eq_some_iff,
    named?_eq_some_iff]
  constructor
  · rintro ⟨_, ⟨⟨field, listed, _, ⟨parsed, ofProject⟩, rfl⟩, flush⟩, rfl⟩
    exact ⟨ofProject, field, listed, flush, parsed⟩
  · rintro ⟨ofProject, field, listed, flush, parsed⟩
    exact ⟨(Text.isFlush field, c), ⟨⟨field, listed, c, ⟨parsed, ofProject⟩, rfl⟩, flush⟩, rfl⟩

theorem isListed_iff {c : Coordinate} : (g.isListed c fs).1 ↔ c.text ∈ g.releaseFields fs := by
  simp only [isListed, releaseFields, List.any_eq_true, Bool.or_eq_true, decide_eq_true_eq, List.mem_flatMap,
    List.mem_cons, List.not_mem_nil, or_false]
  refine exists_congr fun r => and_congr_right fun _ => ?_
  rw [eq_comm, eq_comm (a := r.target)]

theorem isFlush_text {c : Coordinate} (readable : c.Readable) : Text.isFlush c.text :=
  Text.isFlush_iff.2 readable.trimmed.1

theorem mem_releases_of_isListed {c : Coordinate} (readable : c.Readable) (h : (g.isListed c fs).1) :
    c ∈ (g.releases c.project fs).1 :=
  mem_releases.2 ⟨rfl, c.text, isListed_iff.1 h, isFlush_text readable, Coordinate.parse_text readable⟩

/-- When a listing is complete and the test agrees with it. A listing holds all releases that fields name, in the order
of their first mention, if each release that a field with white space before it is the first to name is also the next
new one of the other fields. A release is found listed if it is in the listing, unless no field spells it as its text
does. -/
theorem releases_complete_and_isListed_iff (g : DependencyGraph) (fs : FileStore) :
    (∀ p, (g.releases p fs).1.Nodup ∧ (∀ c ∈ (g.releases p fs).1, c ∈ g.namedReleases fs p) ∧
      ((g.releases p fs).1 = g.namedReleases fs p ↔ MarkedFollow [] (g.namings fs p))) ∧
    ∀ (s : String) (c : Coordinate), Coordinate.parse s = .ok c →
      ((g.isListed c fs).1 → c ∈ (g.releases c.project fs).1) ∧
      (((g.isListed c fs).1 ↔ c ∈ (g.releases c.project fs).1) ↔
        ((∃ field ∈ g.releaseFields fs, Text.isFlush field ∧ Coordinate.parse field = .ok c) →
          c.text ∈ g.releaseFields fs)) := by
  refine ⟨fun p => ⟨?_, fun c listed => ?_, ?_⟩, fun s c parsed => ?_⟩
  · rw [releases_eq]
    exact nodup_distinct _
  · obtain ⟨ofProject, field, mentioned, -, parsed⟩ := mem_releases.1 listed
    exact mem_distinct.2 (List.mem_filterMap.2 ⟨field, mentioned, named?_eq_some_iff.2 ⟨parsed, ofProject⟩⟩)
  · rw [releases_eq, namedReleases_eq, distinct_eq_fresh, distinct_eq_fresh, eq_comm]
    exact fresh_eq_fresh_marked_iff [] _
  · have readable := Coordinate.readable_of_parse parsed
    refine ⟨mem_releases_of_isListed readable, ?_⟩
    have agree : ((g.isListed c fs).1 ↔ c ∈ (g.releases c.project fs).1) ↔
        (c ∈ (g.releases c.project fs).1 → (g.isListed c fs).1) :=
      ⟨fun h => h.2, fun h => ⟨mem_releases_of_isListed readable, h⟩⟩
    rw [agree, isListed_iff, mem_releases, and_iff_right rfl]

/-- A field with white space before the name is passed over by the listing, and a release that is written with an
extension is listed but not found. -/
theorem releases_incomplete_of_blank_and_extension :
    let g : DependencyGraph := ⟨⟨"graph"⟩⟩
    let fs : FileStore := { nodes := [(["graph"], .directory),
      (["graph", "next_all.csv"], .file "\"g:a:jar:1.0\",\" g:a:2.0\"\n".toUTF8 0)] }
    (g.releases ⟨"g", "a"⟩ fs).1 = [⟨"g", "a", "1.0"⟩] ∧
      g.namedReleases fs ⟨"g", "a"⟩ = [⟨"g", "a", "1.0"⟩, ⟨"g", "a", "2.0"⟩] ∧
      (g.isListed ⟨"g", "a", "1.0"⟩ fs).1 = false := by
  decide +kernel

end DependencyGraph
end MigrationMining
