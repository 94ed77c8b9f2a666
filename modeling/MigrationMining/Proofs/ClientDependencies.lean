import MigrationMining.Proofs.GraphLookup

/-! Clients and dependencies are looked up in the same rows from their two ends. Each lookup reads the end that it is
asked for as it is written and the other end as a release, so the two are inverse where rows write both ends plainly. -/

namespace MigrationMining

/-- A compile row whose ends name a library release and a client release, in whatever spelling. -/
structure GraphRow.Connects (r : GraphRow) (library client : Coordinate) : Prop where
  compile : r.isCompile
  target : Coordinate.parse r.target = .ok library
  source : Coordinate.parse r.source = .ok client

namespace DependencyGraph

variable {g : DependencyGraph} {fs : FileStore} {library client : Coordinate} {p : Project}

theorem mem_coordinates {name : String} {fields : List String} {c : Coordinate} :
    c ∈ (coordinates name fields).1 ↔ ∃ field ∈ fields, Coordinate.parse field = .ok c := by
  simp only [coordinates_fst, List.mem_filterMap, Coordinate.toOption_parse_eq_some_iff]

theorem mem_clients : client ∈ (g.clients library fs).1 ↔
    ∃ r ∈ (g.rows linksFile fs).1, r.isCompile ∧ r.target = library.text ∧ Coordinate.parse r.source = .ok client := by
  simp only [clients, mem_distinct, mem_coordinates, List.mem_map, List.mem_filter, Bool.and_eq_true,
    decide_eq_true_eq]
  constructor
  · rintro ⟨_, ⟨r, ⟨listed, target, compile⟩, rfl⟩, source⟩
    exact ⟨r, listed, compile, target, source⟩
  · rintro ⟨r, listed, compile, target, source⟩
    exact ⟨_, ⟨r, ⟨listed, target, compile⟩, rfl⟩, source⟩

theorem mem_dependencies : library ∈ (g.dependencies client fs).1 ↔
    ∃ r ∈ (g.rows linksFile fs).1, r.isCompile ∧ r.source = client.text ∧ Coordinate.parse r.target = .ok library := by
  simp only [dependencies, mem_coordinates, List.mem_map, List.mem_filter, Bool.and_eq_true, decide_eq_true_eq]
  constructor
  · rintro ⟨_, ⟨r, ⟨listed, source, compile⟩, rfl⟩, target⟩
    exact ⟨r, listed, compile, source, target⟩
  · rintro ⟨r, listed, compile, source, target⟩
    exact ⟨_, ⟨r, ⟨listed, source, compile⟩, rfl⟩, target⟩

theorem linkOf?_eq_some_iff {r : GraphRow} : linkOf? r = some ⟨library, client⟩ ↔
    Coordinate.parse r.target = .ok library ∧ Coordinate.parse r.source = .ok client := by
  simp only [linkOf?, Option.bind_eq_some_iff, Option.map_eq_some_iff, Coordinate.toOption_parse_eq_some_iff, Link.mk.injEq]
  constructor
  · rintro ⟨_, target, _, source, rfl, rfl⟩
    exact ⟨target, source⟩
  · rintro ⟨target, source⟩
    exact ⟨library, target, client, source, rfl, rfl⟩

theorem mem_links : ⟨library, client⟩ ∈ (g.links p fs).1 ↔
    library.project = p ∧ ∃ r ∈ (g.rows linksFile fs).1, mentions p r.target ∧ r.Connects library client := by
  simp only [links, linksOf_fst, mem_distinct, List.mem_filter, List.mem_filterMap, linkOf?_eq_some_iff,
    Bool.and_eq_true, decide_eq_true_eq]
  constructor
  · rintro ⟨⟨r, ⟨listed, named, compile⟩, target, source⟩, ofProject⟩
    exact ⟨ofProject, r, listed, named, compile, target, source⟩
  · rintro ⟨ofProject, r, listed, named, compile, target, source⟩
    exact ⟨⟨r, ⟨listed, named, compile⟩, target, source⟩, ofProject⟩

/-- Of a library release that some text names, those clients are found whose rows write the library plainly. -/
theorem mem_clients_of_readable (readable : library.Readable) : client ∈ (g.clients library fs).1 ↔
    ∃ r ∈ (g.rows linksFile fs).1, r.Connects library client ∧ r.target = library.text := by
  rw [mem_clients]
  constructor
  · rintro ⟨r, listed, compile, target, source⟩
    exact ⟨r, listed, ⟨compile, by rw [target, Coordinate.parse_text readable], source⟩, target⟩
  · rintro ⟨r, listed, connects, target⟩
    exact ⟨r, listed, connects.compile, target, connects.source⟩

theorem mem_dependencies_of_readable (readable : client.Readable) : library ∈ (g.dependencies client fs).1 ↔
    ∃ r ∈ (g.rows linksFile fs).1, r.Connects library client ∧ r.source = client.text := by
  rw [mem_dependencies]
  constructor
  · rintro ⟨r, listed, compile, source, target⟩
    exact ⟨r, listed, ⟨compile, target, by rw [source, Coordinate.parse_text readable]⟩, source⟩
  · rintro ⟨r, listed, connects, source⟩
    exact ⟨r, listed, connects.compile, source, connects.target⟩

theorem readable_of_mem_clients (h : client ∈ (g.clients library fs).1) : client.Readable := by
  obtain ⟨r, -, -, -, source⟩ := mem_clients.1 h
  exact Coordinate.readable_of_parse source

theorem readable_of_mem_dependencies (h : library ∈ (g.dependencies client fs).1) : library.Readable := by
  obtain ⟨r, -, -, -, target⟩ := mem_dependencies.1 h
  exact Coordinate.readable_of_parse target

/-- When the two lookups agree on a pair of releases, and which links are dependencies of their clients. Among the rows
that connect two releases, one must write the library plainly if and only if one writes the client plainly. A release
that no text names is on no other's list, so its own list must lack the other one. -/
theorem clients_inverse_dependencies_iff (g : DependencyGraph) (fs : FileStore) :
    (∀ library client : Coordinate, library.Readable → client.Readable →
      ((client ∈ (g.clients library fs).1 ↔ library ∈ (g.dependencies client fs).1) ↔
        ((∃ r ∈ (g.rows linksFile fs).1, r.Connects library client ∧ r.target = library.text) ↔
          ∃ r ∈ (g.rows linksFile fs).1, r.Connects library client ∧ r.source = client.text))) ∧
    (∀ library client : Coordinate, ¬ library.Readable →
      ((client ∈ (g.clients library fs).1 ↔ library ∈ (g.dependencies client fs).1) ↔
        ∀ r ∈ (g.rows linksFile fs).1, r.isCompile → r.target = library.text →
          Coordinate.parse r.source ≠ .ok client)) ∧
    (∀ library client : Coordinate, ¬ client.Readable →
      ((client ∈ (g.clients library fs).1 ↔ library ∈ (g.dependencies client fs).1) ↔
        ∀ r ∈ (g.rows linksFile fs).1, r.isCompile → r.source = client.text →
          Coordinate.parse r.target ≠ .ok library)) ∧
    ∀ p, ∀ link ∈ (g.links p fs).1, (link.library ∈ (g.dependencies link.client fs).1 ↔
      ∃ r ∈ (g.rows linksFile fs).1, r.Connects link.library link.client ∧ r.source = link.client.text) := by
  refine ⟨fun library client hl hc => ?_, fun library client hl => ?_, fun library client hc => ?_,
    fun p link linked => ?_⟩
  · rw [mem_clients_of_readable hl, mem_dependencies_of_readable hc]
  · have unlisted : library ∉ (g.dependencies client fs).1 := fun h => hl (readable_of_mem_dependencies h)
    rw [iff_false_right unlisted, mem_clients]
    simp only [ne_eq, not_exists, not_and]
  · have unlisted : client ∉ (g.clients library fs).1 := fun h => hc (readable_of_mem_clients h)
    rw [iff_false_left unlisted, mem_dependencies]
    simp only [ne_eq, not_exists, not_and]
  · obtain ⟨library, client⟩ := link
    obtain ⟨-, r, -, -, connects⟩ := mem_links.1 linked
    exact mem_dependencies_of_readable (Coordinate.readable_of_parse connects.source)

/-- A row that writes an extension into the coordinate of the client is lost on the way back: the link to the library
is found, but not among the dependencies of the client. -/
theorem clients_not_inverse_of_client_extension :
    let g : DependencyGraph := ⟨⟨"graph"⟩⟩
    let fs : FileStore := { nodes := [(["graph"], .directory),
      (["graph", "links_all.csv"], .file "\"x:c:jar:1\",\"g:a:1.0\",\"compile\"\n".toUTF8 0)] }
    (g.clients ⟨"g", "a", "1.0"⟩ fs).1 = [⟨"x", "c", "1"⟩] ∧
      (g.links ⟨"g", "a"⟩ fs).1 = [⟨⟨"g", "a", "1.0"⟩, ⟨"x", "c", "1"⟩⟩] ∧
      (g.dependencies ⟨"x", "c", "1"⟩ fs).1 = [] := by
  decide +kernel

end DependencyGraph
end MigrationMining
