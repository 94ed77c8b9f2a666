import MigrationMining.DependencyGraph
import MigrationMining.Proofs.CoordinateText
import MigrationMining.Proofs.FirstMention

/-! The lookups of a dependency graph against each other: the clients that the links to a project name, and the clients
that are listed for one of its releases. -/

namespace MigrationMining
namespace DependencyGraph

theorem coordinates_fst (name : String) (fields : List String) :
    (coordinates name fields).1 = fields.filterMap fun field => (Coordinate.parse field).toOption := by
  induction fields with
  | nil => rfl
  | cons field fields ih =>
    rw [coordinates]
    cases h : Coordinate.parse field <;> simp [h, ih, Except.toOption]

def linkOf? (r : GraphRow) : Option Link :=
  (Coordinate.parse r.target).toOption.bind fun library =>
    (Coordinate.parse r.source).toOption.map fun client => ⟨library, client⟩

theorem linksOf_fst (rows : List GraphRow) : (linksOf rows).1 = rows.filterMap linkOf? := by
  induction rows with
  | nil => rfl
  | cons r rows ih =>
    rw [linksOf]
    cases ht : Coordinate.parse r.target <;> cases hs : Coordinate.parse r.source <;>
      simp [ht, hs, ih, linkOf?, Except.toOption]

/-- The client that a row links to a release, and whether the row writes the release in its own spelling. -/
def mention? (v : Coordinate) (r : GraphRow) : Option (Bool × Coordinate) :=
  if r.isCompile && mentions v.project r.target && (Coordinate.parse r.target).toOption = some v then
    (Coordinate.parse r.source).toOption.map (decide (r.target = v.text), ·)
  else none

def mentionsOf (g : DependencyGraph) (fs : FileStore) (v : Coordinate) : List (Bool × Coordinate) :=
  (g.rows linksFile fs).1.filterMap (mention? v)

/-- The clients that the links to the project of a release name for that release. -/
def linkedClients (g : DependencyGraph) (fs : FileStore) (v : Coordinate) : List Coordinate :=
  ((g.links v.project fs).1.filter (·.library = v)).map (·.client)

theorem mentions_text (v : Coordinate) : mentions v.project v.text := by
  simp [mentions, Project.text, Coordinate.text, Coordinate.project, String.append_assoc]

theorem linkedClients_eq (g : DependencyGraph) (fs : FileStore) (v : Coordinate) :
    g.linkedClients fs v = distinct ((g.mentionsOf fs v).map (·.2)) := by
  simp only [linkedClients, links, linksOf_fst]
  rw [← distinct_filter, ← distinct_map]
  · congr 1
    rw [mentionsOf, List.filterMap_filter, List.filter_filterMap, List.filter_filterMap, List.map_filterMap,
      List.map_filterMap]
    refine List.filterMap_congr fun r _ => ?_
    cases ht : (Coordinate.parse r.target).toOption with
    | none => simp [linkOf?, mention?, ht]
    | some library =>
      by_cases hv : library = v
      · subst hv
        cases hs : (Coordinate.parse r.source).toOption <;> cases hm : mentions library.project r.target <;>
          cases hc : r.isCompile <;> simp [linkOf?, mention?, ht, hs, hm, hc, Option.filter]
      · cases hs : (Coordinate.parse r.source).toOption <;> cases hm : mentions v.project r.target <;>
          cases hc : r.isCompile <;> by_cases hp : library.project = v.project <;>
          simp [linkOf?, mention?, ht, hs, hv, hm, hc, hp, Option.filter]
  · intro a ha b hb same
    have ha : a.library = v := by simpa using (List.mem_filter.1 ha).2
    have hb : b.library = v := by simpa using (List.mem_filter.1 hb).2
    obtain ⟨al, ac⟩ := a
    obtain ⟨bl, bc⟩ := b
    simp_all

theorem clients_eq (g : DependencyGraph) (fs : FileStore) {v : Coordinate} (readable : v.Readable) :
    (g.clients v fs).1 = distinct (marked (g.mentionsOf fs v)) := by
  simp only [clients, coordinates_fst, mentionsOf, marked]
  congr 1
  rw [List.filterMap_map, List.filterMap_filter, List.filter_filterMap, List.map_filterMap]
  refine List.filterMap_congr fun r _ => ?_
  by_cases plain : r.target = v.text
  · have own : (Coordinate.parse v.text).toOption = some v := by rw [Coordinate.parse_text readable]; rfl
    cases hc : r.isCompile <;> cases hs : (Coordinate.parse r.source).toOption <;>
      simp [mention?, plain, own, mentions_text, hc, hs, Option.filter]
  · by_cases named : r.isCompile && mentions v.project r.target && (Coordinate.parse r.target).toOption = some v <;>
      cases hs : (Coordinate.parse r.source).toOption <;> simp [mention?, plain, named, hs, Option.filter]

theorem mentionsOf_of_not_readable (g : DependencyGraph) (fs : FileStore) {v : Coordinate} (h : ¬ v.Readable) :
    g.mentionsOf fs v = [] := by
  refine List.filterMap_eq_nil_iff.2 fun r _ => ?_
  have unnamed : (Coordinate.parse r.target).toOption ≠ some v := by
    cases ht : Coordinate.parse r.target with
    | error e => simp [Except.toOption]
    | ok c =>
      rintro same
      obtain rfl : c = v := by simpa [Except.toOption] using same
      exact h (Coordinate.readable_of_parse ht)
  simp [mention?, unnamed]

theorem clients_eq_nil_iff (g : DependencyGraph) (fs : FileStore) (v : Coordinate) :
    (g.clients v fs).1 = [] ↔
      ∀ r ∈ (g.rows linksFile fs).1, r.target = v.text → r.isCompile → (Coordinate.parse r.source).toOption = none := by
  have empty : ∀ cs : List Coordinate, distinct cs = [] ↔ cs = [] := by
    intro cs
    simp only [List.eq_nil_iff_forall_not_mem, mem_distinct]
  simp [clients, coordinates_fst, empty]

/-- When the links to a project and the clients listed for one of its releases agree: for a release that some text
names, if each client that a row in another spelling is the first to mention is also the next new client that is
mentioned in the release's own spelling; for any other release, if no row in its own spelling mentions a client. -/
theorem linkedClients_eq_clients_iff (g : DependencyGraph) (fs : FileStore) (v : Coordinate) :
    (v.Readable → (g.linkedClients fs v = (g.clients v fs).1 ↔ MarkedFollow [] (g.mentionsOf fs v))) ∧
    (¬ v.Readable → (g.linkedClients fs v = (g.clients v fs).1 ↔
      ∀ r ∈ (g.rows linksFile fs).1, r.target = v.text → r.isCompile →
        (Coordinate.parse r.source).toOption = none)) := by
  refine ⟨fun readable => ?_, fun unreadable => ?_⟩
  · rw [linkedClients_eq, clients_eq g fs readable, distinct_eq_fresh, distinct_eq_fresh]
    exact fresh_eq_fresh_marked_iff [] _
  · rw [← clients_eq_nil_iff, linkedClients_eq, mentionsOf_of_not_readable g fs unreadable]
    exact eq_comm

/-- A row that writes an extension into the coordinate of the library is seen by one lookup only. -/
theorem linkedClients_ne_clients_of_extension :
    let g : DependencyGraph := ⟨⟨"graph"⟩⟩
    let fs : FileStore := { nodes := [(["graph"], .directory),
      (["graph", "links_all.csv"], .file "\"x:c:1\",\"g:a:jar:1.0\",\"compile\"\n".toUTF8 0)] }
    g.linkedClients fs ⟨"g", "a", "1.0"⟩ = [⟨"x", "c", "1"⟩] ∧ (g.clients ⟨"g", "a", "1.0"⟩ fs).1 = [] := by
  decide +kernel

end DependencyGraph
end MigrationMining
