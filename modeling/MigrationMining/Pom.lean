import MigrationMining.Coordinate
import MigrationMining.Markup.Leaf

/-! Project object models: the coordinate of a project and its direct dependencies. -/

namespace MigrationMining

structure Pom.Dependency where
  coordinate : Coordinate
  scope : String
  isOptional : Bool
  deriving DecidableEq

structure Pom where
  coordinate : Option Coordinate
  dependencies : List Pom.Dependency
  unresolved : Nat
  deriving DecidableEq

namespace Pom

abbrev Properties := List (List Char × List Char)

def Properties.get? (ps : Properties) (name : List Char) : Option (List Char) :=
  (ps.find? (·.1 = name)).map (·.2)

/-- The name of the placeholder that stands after `${`, and what follows its brace. -/
def placeholder? (cs : List Char) : Option (List Char × List Char) :=
  match _h : cs.dropWhile (· ≠ '}') with
  | [] => none
  | _ :: after =>
    let name := cs.takeWhile (· ≠ '}')
    if name.isEmpty then none else some (name, after)

theorem length_of_placeholder? {cs name after : List Char} (h : placeholder? cs = some (name, after)) :
    after.length < cs.length := by
  unfold placeholder? at h
  split at h
  · simp at h
  · next c r hr =>
    dsimp only at h
    split at h
    · simp at h
    · simp only [Option.some.injEq, Prod.mk.injEq] at h
      have hl := Text.length_dropWhile_le (fun x : Char => x ≠ '}') cs
      rw [hr] at hl
      simp only [List.length_cons] at hl
      rw [← h.2]
      omega

/-- All placeholders replaced at once; `none` if one of them is not a known property. -/
def substitute (ps : Properties) (cs : List Char) : Option (List Char) :=
  match cs with
  | [] => some []
  | '$' :: '{' :: r =>
    match _h : placeholder? r with
    | some (name, after) =>
      match ps.get? name with
      | none => none
      | some value => (substitute ps after).map (value ++ ·)
    | none => (substitute ps ('{' :: r)).map ('$' :: ·)
  | c :: r => (substitute ps r).map (c :: ·)
termination_by cs.length
decreasing_by
  · have := length_of_placeholder? _h
    simp only [List.length_cons]
    omega
  · simp
  · simp

def hasPlaceholder (cs : List Char) : Bool := Text.contains ['$', '{'] cs

def resolveWithin (ps : Properties) : Nat → List Char → Option (List Char)
  | 0, _ => none
  | rounds + 1, cs =>
    if hasPlaceholder cs then (substitute ps cs).bind (resolveWithin ps rounds) else some cs

/-- Properties may name other properties. The text is looked at eight times, so seven substitutions are used. -/
def resolve (ps : Properties) (cs : List Char) : Option (List Char) := resolveWithin ps 8 cs

def indirectSections : List String := ["dependencyManagement", "build", "profiles", "reporting", "exclusions"]

def isPropertyChar (c : Char) : Bool :=
  ('A' ≤ c && c ≤ 'Z') || ('a' ≤ c && c ≤ 'z') || ('0' ≤ c && c ≤ '9') || c = '_' || c = '.' || c = '-'

def tagName? (cs : List Char) : Option (List Char × List Char) :=
  match cs.takeWhile isPropertyChar, cs.dropWhile isPropertyChar with
  | [], _ => none
  | name, '>' :: r => some (name, r)
  | _, _ => none

def property? (cs : List Char) : Option (List Char × List Char) :=
  match cs with
  | '<' :: r =>
    match tagName? r with
    | none => none
    | some (name, r) =>
      match r.dropWhile (· ≠ '<') with
      | '<' :: '/' :: e => (tagName? e).map fun _ => (name, Text.trim (r.takeWhile (· ≠ '<')))
      | _ => none
  | _ => none

def propertiesOf : List Char → Properties
  | [] => []
  | c :: r => propertiesOf r ++ (property? (c :: r)).toList

/-- The parts of a project that are read: its parent, its properties, its direct dependencies, and the rest. -/
structure Sections where
  parent : List Char
  properties : List Char
  dependencies : List Char
  header : List Char
  deriving DecidableEq

def sections (cs : List Char) : Sections :=
  let cs := Span.removeAll .comment cs
  let body := indirectSections.foldl (fun b tag => Span.removeAll (.element tag) b)
    (Span.removeFirst (.element "parent") cs)
  { parent := (Span.firstInside? (.element "parent") cs).getD []
    properties := (Span.firstInside? (.element "properties") body).getD []
    dependencies := (Span.firstInside? (.element "dependencies") body).getD []
    header := Span.removeAll (.element "properties") (Span.removeAll (.element "dependencies") body) }

/-- The properties a project has by its own coordinate and its parent's, before which those of the block give way. -/
def builtIn (group version parentGroup parentVersion : Option (List Char)) : Properties :=
  let entries (names : List String) (value : Option (List Char)) : Properties :=
    match value with
    | none => []
    | some v => names.map fun name => (name.toList, v)
  entries ["project.groupId", "pom.groupId", "groupId"] group ++
    entries ["project.version", "pom.version", "version"] version ++
    entries ["project.parent.version"] parentVersion ++ entries ["project.parent.groupId"] parentGroup

/-- Reads one entry of the dependency block; `none` if a part of its coordinate is missing or unknown. -/
def dependency? (ps : Properties) (entry : List Char) : Option Dependency := do
  let group ← (Leaf.text? "groupId" entry).bind (resolve ps)
  let artifact ← (Leaf.text? "artifactId" entry).bind (resolve ps)
  let version ← (Leaf.text? "version" entry).bind (resolve ps)
  return {
    coordinate := ⟨String.ofList group, String.ofList artifact, String.ofList version⟩
    scope := String.ofList ((Leaf.text? "scope" entry).getD "compile".toList)
    isOptional := Leaf.text? "optional" entry = some "true".toList }

/-- A group and a version that the project does not give are its parent's. -/
def parseChars (cs : List Char) : Pom :=
  let s := sections cs
  let parentGroup := Leaf.text? "groupId" s.parent
  let parentVersion := Leaf.text? "version" s.parent
  let group := (Leaf.text? "groupId" s.header).or parentGroup
  let artifact := Leaf.text? "artifactId" s.header
  let version := (Leaf.text? "version" s.header).or parentVersion
  let ps := builtIn group version parentGroup parentVersion ++ propertiesOf s.properties
  let resolved (t : List Char) : String := String.ofList ((resolve ps t).getD t)
  let entries := (Span.insides (.element "dependency") s.dependencies).map (dependency? ps)
  { coordinate :=
      match group, artifact, version with
      | some g, some a, some v => some ⟨resolved g, String.ofList a, resolved v⟩
      | _, _, _ => none
    dependencies := entries.filterMap id
    unresolved := entries.countP (·.isNone) }

def parse (xml : String) : Pom := parseChars xml.toList

/-- The scope a dependency has where it counts as one of the compiled code. -/
def Dependency.isCompile (d : Dependency) : Bool := d.scope = "compile"

def compileDependencies (p : Pom) : List Coordinate := (p.dependencies.filter (·.isCompile)).map (·.coordinate)

end Pom

end MigrationMining
