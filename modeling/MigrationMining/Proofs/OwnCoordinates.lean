import MigrationMining.Proofs.ResolvedDependencies

/-! Placeholders for the coordinate of the project itself: a project's group and version are known by name whatever its
properties are, while its artifact is known only if a property says so. -/

namespace MigrationMining
namespace Pom

def ownGroup : List Char := "project.groupId".toList

def ownArtifact : List Char := "project.artifactId".toList

def ownVersion : List Char := "project.version".toList

def own (g a v : List Char) : Properties := [(ownGroup, g), (ownArtifact, a), (ownVersion, v)]

/-- The project or its parent gives this coordinate, its group and version without placeholders. -/
structure Sections.Gives (s : Sections) (g a v : List Char) : Prop where
  group : s.group? = some g
  artifact : s.artifact? = some a
  version : s.version? = some v
  plainGroup : hasPlaceholder g = false
  plainVersion : hasPlaceholder v = false

namespace Sections

variable {s : Sections} {g a v : List Char}

theorem get?_ownGroup (group : s.group? = some g) : s.table.get? ownGroup = some g := by
  rw [table, group]
  rfl

theorem get?_ownVersion (version : s.version? = some v) : s.table.get? ownVersion = some v := by
  rw [table, version]
  cases s.group? <;> rfl

theorem get?_ownArtifact : s.table.get? ownArtifact = (propertiesOf s.properties).get? ownArtifact := by
  have unnamed (group version parentGroup parentVersion : Option (List Char)) :
      (builtIn group version parentGroup parentVersion).get? ownArtifact = none := by
    rw [builtIn, Properties.get?_append, Properties.get?_append, Properties.get?_append]
    simp only [Option.or_eq_none_iff]
    refine ⟨⟨⟨?_, ?_⟩, ?_⟩, ?_⟩
    · cases group <;> rfl
    · cases version <;> rfl
    · cases parentVersion <;> rfl
    · cases parentGroup <;> rfl
  rw [table, Properties.get?_append, unnamed, Option.none_or]

/-- A text that names the coordinate only reads as with the artifact that the block of properties gives. -/
theorem get?_table_eq (given : s.Gives g a v) {b t : List Char}
    (names : ∀ name ∈ placeholders t, name ∈ [ownGroup, ownArtifact, ownVersion])
    (artifact : ownArtifact ∈ placeholders t → (propertiesOf s.properties).get? ownArtifact = some b) :
    ∀ name ∈ placeholders t, s.table.get? name = (own g b v).get? name ∧ ((own g b v).get? name).isSome := by
  intro name mem
  have listed := names name mem
  simp only [List.mem_cons, List.not_mem_nil, or_false] at listed
  rcases listed with rfl | rfl | rfl
  · exact ⟨get?_ownGroup given.group, rfl⟩
  · exact ⟨get?_ownArtifact.trans (artifact mem), rfl⟩
  · exact ⟨get?_ownVersion given.version, rfl⟩

theorem readField?_eq_expand_iff (given : s.Gives g a v) {entry b t : List Char} {tag : String}
    (text : Leaf.text? tag entry = some t) (names : ∀ name ∈ placeholders t, name ∈ [ownGroup, ownArtifact, ownVersion])
    (artifact : ownArtifact ∈ placeholders t → (propertiesOf s.properties).get? ownArtifact = some b) :
    readField? s.table entry tag = some (expand (own g b v) t) ↔ hasPlaceholder (expand (own g b v) t) = false := by
  have known := get?_table_eq given names artifact
  rw [readField?, text, Option.bind_some, ← expand_congr fun name mem => (known name mem).1]
  refine resolve_eq_expand_iff fun name mem => ?_
  obtain ⟨same, isSome⟩ := known name mem
  rwa [same]

end Sections

theorem coordinate_parseChars {cs g a v : List Char} (given : (sections cs).Gives g a v) :
    (parseChars cs).coordinate = some ⟨String.ofList g, String.ofList a, String.ofList v⟩ := by
  have group : (Leaf.text? "groupId" (sections cs).header).or (Leaf.text? "groupId" (sections cs).parent) = some g :=
    given.group
  have artifact : Leaf.text? "artifactId" (sections cs).header = some a := given.artifact
  have version : (Leaf.text? "version" (sections cs).header).or (Leaf.text? "version" (sections cs).parent) = some v :=
    given.version
  rw [parseChars]
  simp only [group, artifact, version, resolve_of_plain given.plainGroup, resolve_of_plain given.plainVersion,
    Option.getD_some]

/-- Whatever the block of properties says, a field that names the group and the version of its project only is read as
the text with these, unless that has the beginning of a placeholder again. A field that names the artifact is read with
what the block says of that name, and cannot be read if the block says nothing. -/
theorem own_fields_read_iff {xml : String} {g a v : List Char} (given : (sections xml.toList).Gives g a v) :
    let s := sections xml.toList
    (parse xml).coordinate = some ⟨String.ofList g, String.ofList a, String.ofList v⟩ ∧
    (∀ entry tag t, Leaf.text? tag entry = some t →
      (∀ name ∈ placeholders t, name ∈ [ownGroup, ownArtifact, ownVersion]) →
      (ownArtifact ∉ placeholders t →
        (readField? s.table entry tag = some (expand (own g a v) t) ↔
          hasPlaceholder (expand (own g a v) t) = false)) ∧
      (ownArtifact ∈ placeholders t →
        match (propertiesOf s.properties).get? ownArtifact with
        | none => readField? s.table entry tag = none
        | some b => readField? s.table entry tag = some (expand (own g b v) t) ↔
            hasPlaceholder (expand (own g b v) t) = false)) ∧
    ∀ entry ∈ s.entries, (∀ tag ∈ coordinateTags, ∃ t ∈ Leaf.text? tag entry,
        (∀ name ∈ placeholders t, name ∈ [ownGroup, ownVersion]) ∧ hasPlaceholder (expand (own g a v) t) = false) →
      ∃ d ∈ (parse xml).dependencies, d.coordinate.fields.map (·.toList) =
        coordinateTags.map fun tag => expand (own g a v) ((Leaf.text? tag entry).getD []) := by
  intro s
  refine ⟨coordinate_parseChars given, fun entry tag t text names => ⟨fun spared => ?_, fun named => ?_⟩,
    fun entry mem fields => ?_⟩
  · exact Sections.readField?_eq_expand_iff given text names fun named => absurd named spared
  · cases block : (propertiesOf s.properties).get? ownArtifact with
    | none =>
      have unknown : s.table.get? ownArtifact = none := Sections.get?_ownArtifact.trans block
      rw [readField?, text]
      exact resolve_eq_none named unknown
    | some b => exact Sections.readField?_eq_expand_iff given text names fun _ => block
  · -- the artifact is not named, so that any value may stand for it
    refine exists_dependency_of_readField? mem fun tag listed => ?_
    obtain ⟨t, text, names, plain⟩ := fields tag listed
    rw [Option.mem_def] at text
    have spared : ownArtifact ∉ placeholders t := fun named => absurd (names _ named) (by decide)
    have among : ∀ name ∈ placeholders t, name ∈ [ownGroup, ownArtifact, ownVersion] := by
      intro name mem
      have group_or_version := names name mem
      simp only [List.mem_cons, List.not_mem_nil, or_false] at group_or_version ⊢
      exact group_or_version.imp_right .inr
    rw [text, Option.getD_some]
    exact (Sections.readField?_eq_expand_iff given text among fun named => absurd named spared).2 plain

def firstSibling : List Char :=
  enclosed "groupId" "${project.groupId}".toList ++ enclosed "artifactId" "b".toList ++
    enclosed "version" "${project.version}-x".toList

def secondSibling : List Char :=
  enclosed "groupId" "g".toList ++ enclosed "artifactId" "${project.artifactId}-api".toList ++
    enclosed "version" "1".toList

/-- A project in its parent's group, with a property of the name of its version, that depends on two of its siblings:
one by the names of its group and version, the other by the name of its artifact. -/
def siblings : String := String.ofList (enclosed "project" (enclosed "parent" (enclosed "groupId" "g".toList) ++
  enclosed "artifactId" "a".toList ++ enclosed "version" "1".toList ++
  enclosed "properties" (enclosed "project.version" "9".toList) ++
  enclosed "dependencies" (enclosed "dependency" firstSibling ++ enclosed "dependency" secondSibling)))

def siblingSections : Sections where
  parent := enclosed "groupId" "g".toList
  properties := enclosed "project.version" "9".toList
  dependencies := enclosed "dependency" firstSibling ++ enclosed "dependency" secondSibling
  header := enclosed "project" (enclosed "artifactId" "a".toList ++ enclosed "version" "1".toList)

/-- What the siblings are read as: their sections, the texts by the names of the group and the version in the first
entry, and the name of the artifact in the second one. -/
theorem siblings_read : sections siblings.toList = siblingSections ∧
    (siblingSections.group? = some "g".toList ∧ siblingSections.artifact? = some "a".toList ∧
      siblingSections.version? = some "1".toList ∧ siblingSections.entries = [firstSibling, secondSibling]) ∧
    ((∀ tag ∈ coordinateTags, ∃ t ∈ Leaf.text? tag firstSibling, (∀ name ∈ placeholders t, name ∈ [ownGroup, ownVersion]) ∧
        hasPlaceholder (expand (own "g".toList "a".toList "1".toList) t) = false) ∧
      (coordinateTags.map fun tag => expand (own "g".toList "a".toList "1".toList)
        ((Leaf.text? tag firstSibling).getD [])) = ["g".toList, "b".toList, "1-x".toList]) ∧
    ([firstSibling, secondSibling].countP (fun entry => (dependency? siblingSections.table entry).isNone) = 1 ∧
      Leaf.text? "artifactId" secondSibling = some "${project.artifactId}-api".toList ∧
      placeholders "${project.artifactId}-api".toList = [ownArtifact] ∧
      expand (own "g".toList "a".toList "1".toList) "${project.artifactId}-api".toList = "a-api".toList ∧
      readField? siblingSections.table secondSibling "artifactId" = none) := by
  rw [siblings, String.toList_ofList]
  decide +kernel

theorem gives_siblings : (sections siblings.toList).Gives "g".toList "a".toList "1".toList := by
  obtain ⟨same, ⟨group, artifact, version, -⟩, -⟩ := siblings_read
  rw [same]
  exact ⟨group, artifact, version, rfl, rfl⟩

theorem entries_siblings : (sections siblings.toList).entries = [firstSibling, secondSibling] := by
  obtain ⟨same, ⟨-, -, -, entries⟩, -⟩ := siblings_read
  rw [same, entries]

theorem own_fields_read_of_siblings : (sections siblings.toList).Gives "g".toList "a".toList "1".toList ∧
    ∃ d ∈ (parse siblings).dependencies,
      d.coordinate.fields.map (·.toList) = ["g".toList, "b".toList, "1-x".toList] := by
  obtain ⟨-, -, ⟨named, replaced⟩, -⟩ := siblings_read
  have listed : firstSibling ∈ (sections siblings.toList).entries := by
    rw [entries_siblings]
    exact List.mem_cons_self
  obtain ⟨-, -, whole⟩ := own_fields_read_iff gives_siblings
  obtain ⟨d, mem, fields⟩ := whole firstSibling listed named
  exact ⟨gives_siblings, d, mem, fields.trans replaced⟩

/-- The name of the project's artifact is not known, so that the second sibling is only counted. -/
theorem artifact_name_unknown : (sections siblings.toList).Gives "g".toList "a".toList "1".toList ∧
    (parse siblings).unresolved = 1 ∧ ∃ entry ∈ (sections siblings.toList).entries, ∃ t,
      Leaf.text? "artifactId" entry = some t ∧ placeholders t = [ownArtifact] ∧
      expand (own "g".toList "a".toList "1".toList) t = "a-api".toList ∧
      readField? (sections siblings.toList).table entry "artifactId" = none := by
  obtain ⟨same, -, -, counted, read⟩ := siblings_read
  have listed : secondSibling ∈ (sections siblings.toList).entries := by
    rw [entries_siblings]
    exact List.mem_cons_of_mem _ List.mem_cons_self
  have unresolved : (parse siblings).unresolved = 1 := by
    rw [parse, unresolved_parseChars, entries_siblings, same, counted]
  refine ⟨gives_siblings, unresolved, secondSibling, listed, "${project.artifactId}-api".toList, ?_⟩
  rw [same]
  exact read

end Pom
end MigrationMining
