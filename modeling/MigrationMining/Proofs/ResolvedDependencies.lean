import Mathlib.Data.List.Basic
import MigrationMining.Proofs.Placeholders

/-! What the dependencies of a project object model have in their fields, and which entries of its dependency block are
only counted. -/

namespace MigrationMining

def Coordinate.fields (c : Coordinate) : List String := [c.group, c.artifact, c.version]

theorem Leaf.ne_nil_of_text? {tag : String} {cs t : List Char} (given : Leaf.text? tag cs = some t) : t ≠ [] := by
  rw [Leaf.text?] at given
  split at given
  · cases given
  · split at given
    · cases given
    · next filled =>
      cases given
      simpa using filled

namespace Pom

namespace Sections

variable (s : Sections)

def parentGroup? : Option (List Char) := Leaf.text? "groupId" s.parent

def parentVersion? : Option (List Char) := Leaf.text? "version" s.parent

def group? : Option (List Char) := (Leaf.text? "groupId" s.header).or s.parentGroup?

def artifact? : Option (List Char) := Leaf.text? "artifactId" s.header

def version? : Option (List Char) := (Leaf.text? "version" s.header).or s.parentVersion?

def table : Properties :=
  builtIn s.group? s.version? s.parentGroup? s.parentVersion? ++ propertiesOf s.properties

def entries : List (List Char) := Span.insides (.element "dependency") s.dependencies

end Sections

def coordinateTags : List String := ["groupId", "artifactId", "version"]

/-- A field of an entry with its placeholders replaced; `none` if it is missing or blank, or cannot be resolved. -/
def readField? (ps : Properties) (entry : List Char) (tag : String) : Option (List Char) :=
  (Leaf.text? tag entry).bind (resolve ps)

theorem dependencies_parseChars (cs : List Char) :
    (parseChars cs).dependencies = (sections cs).entries.filterMap (dependency? (sections cs).table) :=
  List.filterMap_map ..

theorem unresolved_parseChars (cs : List Char) : (parseChars cs).unresolved =
    (sections cs).entries.countP fun entry => (dependency? (sections cs).table entry).isNone :=
  List.countP_map ..

section Entries

variable {ps : Properties} {entry : List Char} {d : Dependency} {tag : String} {t : List Char}

theorem map_readField?_of_dependency? (read : dependency? ps entry = some d) :
    coordinateTags.map (readField? ps entry) = d.coordinate.fields.map fun t => some t.toList := by
  obtain ⟨g, group, read⟩ := Option.bind_eq_some_iff.1 read
  obtain ⟨a, artifact, read⟩ := Option.bind_eq_some_iff.1 read
  obtain ⟨v, version, read⟩ := Option.bind_eq_some_iff.1 read
  cases read
  simp [coordinateTags, readField?, Coordinate.fields, group, artifact, version]

theorem mem_fields_iff (read : dependency? ps entry = some d) {t : String} :
    t ∈ d.coordinate.fields ↔ ∃ tag ∈ coordinateTags, readField? ps entry tag = some t.toList := by
  have listed : some t.toList ∈ d.coordinate.fields.map (fun t => some t.toList) ↔ t ∈ d.coordinate.fields :=
    List.mem_map_of_injective fun u v same => String.toList_inj.1 (Option.some.inj same)
  rw [← listed, ← map_readField?_of_dependency? read, List.mem_map]

theorem isSome_dependency?_iff :
    (dependency? ps entry).isSome ↔ ∀ tag ∈ coordinateTags, (readField? ps entry tag).isSome := by
  constructor
  · intro given tag mem
    obtain ⟨d, read⟩ := Option.isSome_iff_exists.1 given
    have listed := List.mem_map_of_mem (f := readField? ps entry) mem
    rw [map_readField?_of_dependency? read] at listed
    obtain ⟨t, -, same⟩ := List.mem_map.1 listed
    rw [← same]
    rfl
  · intro given
    obtain ⟨g, group⟩ := Option.isSome_iff_exists.1 (given "groupId" (by simp [coordinateTags]))
    obtain ⟨a, artifact⟩ := Option.isSome_iff_exists.1 (given "artifactId" (by simp [coordinateTags]))
    obtain ⟨v, version⟩ := Option.isSome_iff_exists.1 (given "version" (by simp [coordinateTags]))
    rw [readField?] at group artifact version
    rw [dependency?, group, artifact, version]
    rfl

theorem isNone_dependency? :
    (dependency? ps entry).isNone = coordinateTags.any fun tag => (readField? ps entry tag).isNone := by
  rw [Bool.eq_iff_iff, List.any_eq_true, ← not_iff_not]
  simp only [not_exists, not_and, Bool.not_eq_true, Option.isNone_eq_false_iff]
  exact isSome_dependency?_iff

theorem plain_of_readField? (read : readField? ps entry tag = some t) : hasPlaceholder t = false := by
  obtain ⟨_, -, resolved⟩ := Option.bind_eq_some_iff.1 read
  exact plain_of_resolve resolved

/-- Rounds of substitution make the field a text of placeholders for blank properties only. -/
def Hollows (ps : Properties) (entry : List Char) (tag : String) : Prop := ∃ t ∈ Leaf.text? tag entry, TurnsHollow ps t

theorem readField?_eq_nil_iff (given : (readField? ps entry tag).isSome) :
    readField? ps entry tag = some [] ↔ Hollows ps entry tag := by
  obtain ⟨r, read⟩ := Option.isSome_iff_exists.1 given
  obtain ⟨t, text, resolved⟩ := Option.bind_eq_some_iff.1 read
  rw [read, Option.some_inj, eq_nil_iff_of_resolveWithin (Leaf.ne_nil_of_text? text) resolved, Hollows, text]
  simp

theorem fields_filled_iff (read : dependency? ps entry = some d) :
    (∀ t ∈ d.coordinate.fields, t ≠ "") ↔ ∀ tag ∈ coordinateTags, ¬ Hollows ps entry tag := by
  have given := isSome_dependency?_iff.1 (Option.isSome_iff_exists.2 ⟨d, read⟩)
  constructor
  · intro filled tag mem hollow
    have empty : readField? ps entry tag = some "".toList := (readField?_eq_nil_iff (given tag mem)).2 hollow
    exact filled "" ((mem_fields_iff read).2 ⟨tag, mem, empty⟩) rfl
  · rintro solid t mem rfl
    obtain ⟨tag, mem, empty⟩ := (mem_fields_iff read).1 mem
    exact solid tag mem ((readField?_eq_nil_iff (given tag mem)).1 empty)

end Entries

theorem exists_dependency_of_readField? {cs entry : List Char} {field : String → List Char}
    (mem : entry ∈ (sections cs).entries)
    (read : ∀ tag ∈ coordinateTags, readField? (sections cs).table entry tag = some (field tag)) :
    ∃ d ∈ (parseChars cs).dependencies, d.coordinate.fields.map (·.toList) = coordinateTags.map field := by
  obtain ⟨d, found⟩ := Option.isSome_iff_exists.1 (isSome_dependency?_iff.2 fun tag mem => by rw [read tag mem]; rfl)
  refine ⟨d, ?_, ?_⟩
  · rw [dependencies_parseChars, List.mem_filterMap]
    exact ⟨entry, mem, found⟩
  · have fields := map_readField?_of_dependency? found
    rw [List.map_congr_left read] at fields
    refine List.map_injective_iff.2 (fun _ _ => Option.some.inj) ?_
    rw [List.map_map, List.map_map]
    exact fields.symm

/-- No field of a dependency has a placeholder or the beginning of one, and each entry of the block that has a field
which cannot be read is counted instead. The fields are filled as long as no entry that can be read has one of which
rounds of substitution leave nothing but placeholders for blank properties. -/
theorem dependencies_filled_iff (xml : String) :
    let pom := parse xml
    let s := sections xml.toList
    (∀ d ∈ pom.dependencies, ∀ t ∈ d.coordinate.fields, hasPlaceholder t.toList = false) ∧
    pom.dependencies.length + pom.unresolved = s.entries.length ∧
    pom.unresolved =
      s.entries.countP (fun entry => coordinateTags.any fun tag => (readField? s.table entry tag).isNone) ∧
    ((∀ d ∈ pom.dependencies, ∀ t ∈ d.coordinate.fields, t ≠ "") ↔
      ∀ entry ∈ s.entries, (∀ tag ∈ coordinateTags, (readField? s.table entry tag).isSome) →
        ∀ tag ∈ coordinateTags, ¬ Hollows s.table entry tag) := by
  intro pom s
  have dependencies : pom.dependencies = s.entries.filterMap (dependency? s.table) := dependencies_parseChars _
  have unresolved : pom.unresolved = s.entries.countP fun entry => (dependency? s.table entry).isNone :=
    unresolved_parseChars _
  have mem_dependencies (d : Dependency) :
      d ∈ pom.dependencies ↔ ∃ entry ∈ s.entries, dependency? s.table entry = some d := by
    rw [dependencies, List.mem_filterMap]
  refine ⟨fun d mem t field => ?_, ?_, ?_, ?_⟩
  · obtain ⟨entry, -, read⟩ := (mem_dependencies d).1 mem
    obtain ⟨tag, -, read⟩ := (mem_fields_iff read).1 field
    exact plain_of_readField? read
  · rw [dependencies, unresolved, List.length_filterMap_eq_countP,
      List.length_eq_countP_add_countP fun entry => (dependency? s.table entry).isSome]
    simp only [Bool.not_eq_true, Option.isSome_eq_false_iff, Bool.decide_eq_true]
  · rw [unresolved]
    exact List.countP_congr fun entry _ => by rw [isNone_dependency?]
  · simp only [mem_dependencies]
    constructor
    · intro filled entry mem given
      obtain ⟨d, read⟩ := Option.isSome_iff_exists.1 (isSome_dependency?_iff.2 given)
      exact (fields_filled_iff read).1 (filled d ⟨entry, mem, read⟩)
    · rintro solid d ⟨entry, mem, read⟩
      have given := isSome_dependency?_iff.1 (Option.isSome_iff_exists.2 ⟨d, read⟩)
      exact (fields_filled_iff read).2 (solid entry mem given)

def enclosed (tag : String) (inside : List Char) : List Char :=
  (Delimiters.element tag).opening ++ inside ++ (Delimiters.element tag).closing

/-- A project with a blank property, which is the group of its dependency. -/
def blankGroup : String := String.ofList (enclosed "project" (enclosed "properties" (enclosed "e" []) ++
  enclosed "dependencies" (enclosed "dependency" (enclosed "groupId" "${e}".toList ++
    enclosed "artifactId" "a".toList ++ enclosed "version" "1".toList))))

theorem empty_field_of_blank_property : (parse blankGroup).unresolved = 0 ∧
    ∃ d ∈ (parse blankGroup).dependencies, ∃ t ∈ d.coordinate.fields, t = "" := by
  have read : parse blankGroup = ⟨none, [⟨⟨"", "a", "1"⟩, "compile", false⟩], 0⟩ := by
    rw [parse, blankGroup, String.toList_ofList]
    decide +kernel
  rw [read]
  exact ⟨rfl, _, List.mem_singleton_self _, "", List.mem_cons_self, rfl⟩

end Pom

end MigrationMining
