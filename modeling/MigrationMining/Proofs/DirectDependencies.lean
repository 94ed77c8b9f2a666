import MigrationMining.Proofs.Placeholders
import MigrationMining.Proofs.WrittenContent

/-! Which dependencies a project object model is read to have, as a tree: the dependencies of the project itself, if its
sections can be told apart by their tags. -/

namespace MigrationMining

namespace Content

open Text

variable {m n : TagName} {c : Content}

/-- A change of content that leaves the children of that tag in their places. -/
def Spares (T : Content → Content) (n : TagName) : Prop :=
  ∀ (α : Type) (f : Content → α), (∀ i, f (T i) = f i) → ∀ c, ((T c).children n).map f = (c.children n).map f

theorem spares_prune (other : m ≠ n) : Spares (prune m) n := by
  intro α f same c
  induction c with
  | nil => rfl
  | text cs rest ih => exact ih
  | element tag inside rest inner outer =>
    by_cases pruned : tag = m
    · rw [prune, if_pos pruned, children, if_neg fun h => other (pruned ▸ h), outer]
    · rw [prune, if_neg pruned, children, children]
      split
      · rw [List.map_cons, List.map_cons, same, outer]
      · exact outer

theorem spares_dropFirst (other : m ≠ n) : Spares (dropFirst m) n := by
  intro α f same c
  induction c with
  | nil => rfl
  | text cs rest ih => exact ih
  | element tag inside rest inner outer =>
    by_cases dropped : tag = m
    · rw [dropFirst, if_pos dropped, children, if_neg fun h => other (dropped ▸ h)]
    · rw [dropFirst, if_neg dropped]
      split
      · rw [children, children]
        split
        · rw [List.map_cons, List.map_cons, same]
        · rfl
      · rw [children, children]
        split
        · rw [List.map_cons, List.map_cons, outer]
        · exact outer

@[simp] theorem ownText_prune (m : TagName) (c : Content) : (c.prune m).ownText = c.ownText := by
  induction c with
  | nil => rfl
  | text cs rest ih => rw [prune, ownText, ownText, ih]
  | element tag inside rest inner outer =>
    rw [prune]
    split
    · exact outer
    · exact outer

@[simp] theorem ownText_dropFirst (m : TagName) (c : Content) : (c.dropFirst m).ownText = c.ownText := by
  induction c with
  | nil => rfl
  | text cs rest ih => rw [dropFirst, ownText, ownText, ih]
  | element tag inside rest inner outer =>
    rw [dropFirst]
    split
    · rfl
    · split
      · rfl
      · exact outer

end Content

namespace Pom

open Text Content

section Tags

def projectTag : TagName := .of "project" (by decide)

def parentTag : TagName := .of "parent" (by decide)

def dependenciesTag : TagName := .of "dependencies" (by decide)

def dependencyTag : TagName := .of "dependency" (by decide)

def groupTag : TagName := .of "groupId" (by decide)

def artifactTag : TagName := .of "artifactId" (by decide)

def versionTag : TagName := .of "version" (by decide)

def scopeTag : TagName := .of "scope" (by decide)

def optionalTag : TagName := .of "optional" (by decide)

def fieldTags : List TagName := [groupTag, artifactTag, versionTag, scopeTag, optionalTag]

/-- The tags of the sections whose dependencies are not those of the project itself. -/
def sectionTags : List TagName :=
  [.of "dependencyManagement" (by decide), .of "build" (by decide), .of "profiles" (by decide),
    .of "reporting" (by decide), .of "exclusions" (by decide)]

theorem text_sectionTags : sectionTags.map (·.text) = indirectSections := rfl

end Tags

def field? (n : TagName) (entry : Content) : Option (List Char) :=
  ((entry.children n).map ownText).head?.bind nonBlank?

/-- The dependency that an element stands for; `none` if it leaves out a part of the coordinate. -/
def dependencyOf? (entry : Content) : Option Dependency := do
  let group ← field? groupTag entry
  let artifact ← field? artifactTag entry
  let version ← field? versionTag entry
  return {
    coordinate := ⟨String.ofList group, String.ofList artifact, String.ofList version⟩
    scope := String.ofList ((field? scopeTag entry).getD "compile".toList)
    isOptional := field? optionalTag entry = some "true".toList }

def entriesOf (deps : Content) : List (Option Dependency) := (deps.children dependencyTag).map dependencyOf?

def directDependencies (inside : Content) : List (Option Dependency) :=
  ((inside.children dependenciesTag).map entriesOf).flatten

theorem field?_of_spares {T : Content → Content} {n : TagName} (spares : Spares T n)
    (text : ∀ c, (T c).ownText = c.ownText) (entry : Content) : field? n (T entry) = field? n entry := by
  rw [field?, spares _ ownText text, field?]

theorem directDependencies_of_spares {T : Content → Content}
    (spares : ∀ n ∈ dependenciesTag :: dependencyTag :: fieldTags, Spares T n)
    (text : ∀ c, (T c).ownText = c.ownText) (inside : Content) :
    directDependencies (T inside) = directDependencies inside := by
  have field {n : TagName} (read : n ∈ fieldTags) (entry : Content) : field? n (T entry) = field? n entry :=
    field?_of_spares (spares n (List.mem_cons_of_mem _ (List.mem_cons_of_mem _ read))) text entry
  have entry (e : Content) : dependencyOf? (T e) = dependencyOf? e := by
    rw [dependencyOf?, field (by simp [fieldTags]), field (by simp [fieldTags]), field (by simp [fieldTags]),
      field (by simp [fieldTags]), field (by simp [fieldTags]), dependencyOf?]
  have entries (deps : Content) : entriesOf (T deps) = entriesOf deps := spares dependencyTag (by simp) _ _ entry deps
  rw [directDependencies, spares dependenciesTag (by simp) _ _ entries, directDependencies]

def document (inside : Content) : Content := .element projectTag inside .nil

/-- Of each tag in turn, no element holds another one, when the elements of the tags before are gone. -/
def apart : List TagName → Content → Bool
  | [], _ => true
  | n :: ns, c => c.unnested n && apart ns (c.prune n)

/-- The content of a project without its first parent and its sections. -/
def remaining (inside : Content) : Content := sectionTags.foldl (fun c n => c.prune n) (inside.dropFirst parentTag)

/-- The text of a project says what its tree says: sections end at their own end tags, the first dependencies that
remain are the project's, each entry in them is one of its dependencies, and the first leaf with the tag of a field is
that field. Nothing in a field is written as a reference. -/
structure Legible (inside : Content) : Prop where
  parent : ∀ i ∈ inside.first? parentTag, parentTag ∉ i.tags
  sections : apart sectionTags (inside.dropFirst parentTag)
  own : (remaining inside).first? dependenciesTag = ((remaining inside).children dependenciesTag).head?
  block : ∀ deps ∈ (remaining inside).first? dependenciesTag, dependenciesTag ∉ deps.tags ∧
    deps.unnested dependencyTag ∧ deps.elements dependencyTag = deps.children dependencyTag
  fields : ∀ deps ∈ (remaining inside).first? dependenciesTag, ∀ entry ∈ deps.children dependencyTag, ∀ n ∈ fieldTags,
    entry.firstLeaf? n = ((entry.children n).map ownText).head? ∧
      ∀ t ∈ entry.firstLeaf? n, escape t = t ∧ hasPlaceholder (trim t) = false

section Sections

variable {c inside : Content} {n : TagName}

theorem removeAll_whole (unnested : c.unnested n) : Span.removeAll (.element n.text) c.write = (c.prune n).write := by
  have whole := removeAll_write unnested []
  rwa [List.append_nil, Span.removeAll_nil, List.append_nil] at whole

theorem insides_whole (unnested : c.unnested n) :
    Span.insides (.element n.text) c.write = (c.elements n).map write := by
  have whole := insides_write unnested []
  rwa [List.append_nil, Span.insides_nil, List.append_nil] at whole

theorem foldl_removeAll_write {ns : List TagName} (told : apart ns c) :
    (ns.map (·.text)).foldl (fun b tag => Span.removeAll (.element tag) b) c.write =
      (ns.foldl (fun c n => c.prune n) c).write := by
  induction ns generalizing c with
  | nil => rfl
  | cons n ns ih =>
    obtain ⟨unnested, later⟩ := Bool.and_eq_true_iff.1 told
    rw [List.map_cons, List.foldl_cons, List.foldl_cons, removeAll_whole unnested, ih later]

theorem first?_document (other : projectTag ≠ n) (inside : Content) : (document inside).first? n = inside.first? n := by
  rw [document, first?, if_neg other, first?, Option.or_none]

theorem prune_document (other : projectTag ≠ n) (inside : Content) :
    (document inside).prune n = document (inside.prune n) := by
  rw [document, prune, if_neg other, prune, document]

theorem dropFirst_document (other : projectTag ≠ n) (inside : Content) :
    (document inside).dropFirst n = document (inside.dropFirst n) := by
  rw [document, dropFirst, if_neg other]
  split
  · rfl
  · next absent => rw [dropFirst, dropFirst_eq_self absent, document]

theorem apart_document {ns : List TagName} (other : projectTag ∉ ns) (inside : Content) :
    apart ns (document inside) = apart ns inside := by
  induction ns generalizing inside with
  | nil => rfl
  | cons n ns ih =>
    rw [List.mem_cons, not_or] at other
    rw [apart, apart, prune_document other.1, ih other.2, document, unnested, if_neg other.1, unnested, Bool.and_true]

theorem foldl_prune_document {ns : List TagName} (other : projectTag ∉ ns) (inside : Content) :
    ns.foldl (fun c n => c.prune n) (document inside) = document (ns.foldl (fun c n => c.prune n) inside) := by
  induction ns generalizing inside with
  | nil => rfl
  | cons n ns ih =>
    rw [List.mem_cons, not_or] at other
    rw [List.foldl_cons, List.foldl_cons, prune_document other.1, ih other.2]

theorem dependencies_sections (legible : Legible inside) : (sections (document inside).write).dependencies =
    (((remaining inside).first? dependenciesTag).map write).getD [] := by
  have noParent : projectTag ≠ parentTag := by decide
  have noSection : projectTag ∉ sectionTags := by decide
  have noBlock : projectTag ≠ dependenciesTag := by decide
  have parent : Span.removeFirst (.element "parent") (document inside).write =
      (document (inside.dropFirst parentTag)).write := by
    rw [← dropFirst_document noParent]
    refine removeFirst_write (n := parentTag) fun i found => legible.parent i ?_
    rwa [first?_document noParent] at found
  have body : indirectSections.foldl (fun b tag => Span.removeAll (.element tag) b)
      (document (inside.dropFirst parentTag)).write = (document (remaining inside)).write := by
    rw [← text_sectionTags, remaining, ← foldl_prune_document noSection]
    refine foldl_removeAll_write ?_
    rw [apart_document noSection]
    exact legible.sections
  have block : Span.firstInside? (.element "dependencies") (document (remaining inside)).write =
      ((remaining inside).first? dependenciesTag).map write := by
    rw [← first?_document noBlock]
    refine firstInside?_write (n := dependenciesTag) fun deps found => (legible.block deps ?_).1
    rwa [first?_document noBlock] at found
  rw [sections]
  simp only [removeAll_comment_write, parent, body, block]

theorem remaining_congr {β : Type} {f : Content → β} (pruned : ∀ m ∈ sectionTags, ∀ c, f (c.prune m) = f c)
    (dropped : ∀ c, f (c.dropFirst parentTag) = f c) (inside : Content) : f (remaining inside) = f inside := by
  have all (ns : List TagName) (each : ∀ m ∈ ns, ∀ c, f (c.prune m) = f c) (c : Content) :
      f (ns.foldl (fun c n => c.prune n) c) = f c := by
    induction ns generalizing c with
    | nil => rfl
    | cons m ns ih =>
      obtain ⟨first, later⟩ := List.forall_mem_cons.1 each
      rw [List.foldl_cons, ih later, first]
  rw [remaining, all _ pruned, dropped]

theorem ne_of_removed {m n : TagName} (removed : m ∈ parentTag :: sectionTags)
    (read : n ∈ dependenciesTag :: dependencyTag :: fieldTags) : m ≠ n := by
  have distinct : ∀ m ∈ parentTag :: sectionTags, m ∉ dependenciesTag :: dependencyTag :: fieldTags := by decide
  rintro rfl
  exact distinct m removed read

theorem directDependencies_remaining (inside : Content) :
    directDependencies (remaining inside) = directDependencies inside := by
  refine remaining_congr (fun m removed c => ?_) (fun c => ?_) inside
  · have spares : ∀ n ∈ dependenciesTag :: dependencyTag :: fieldTags, Spares (prune m) n :=
      fun n read => spares_prune (ne_of_removed (List.mem_cons_of_mem _ removed) read)
    exact directDependencies_of_spares spares (ownText_prune m) c
  · have spares : ∀ n ∈ dependenciesTag :: dependencyTag :: fieldTags, Spares (dropFirst parentTag) n :=
      fun n read => spares_dropFirst (ne_of_removed List.mem_cons_self read)
    exact directDependencies_of_spares spares (ownText_dropFirst parentTag) c

theorem length_children_of_spares {T : Content → Content} (spares : Spares T n) (c : Content) :
    ((T c).children n).length = (c.children n).length := by
  have units := spares Unit (fun _ => ()) (fun _ => rfl) c
  simpa using congrArg List.length units

theorem length_children_remaining (inside : Content) :
    ((remaining inside).children dependenciesTag).length = (inside.children dependenciesTag).length := by
  have read : dependenciesTag ∈ dependenciesTag :: dependencyTag :: fieldTags := List.mem_cons_self
  refine remaining_congr (f := fun c => (c.children dependenciesTag).length) (fun m removed c => ?_)
    (fun c => ?_) inside
  · exact length_children_of_spares (spares_prune (ne_of_removed (List.mem_cons_of_mem _ removed) read)) c
  · exact length_children_of_spares (spares_dropFirst (ne_of_removed List.mem_cons_self read)) c

end Sections

theorem dependency?_write {ps : Properties} {entry : Content} (fields : ∀ n ∈ fieldTags,
    entry.firstLeaf? n = ((entry.children n).map ownText).head? ∧
      ∀ t ∈ entry.firstLeaf? n, escape t = t ∧ hasPlaceholder (trim t) = false) :
    dependency? ps entry.write = dependencyOf? entry := by
  have text {n : TagName} (read : n ∈ fieldTags) : Leaf.text? n.text entry.write = field? n entry := by
    obtain ⟨own, plain⟩ := fields n read
    rw [text?_write, field?, ← own]
    cases found : entry.firstLeaf? n with
    | none => rfl
    | some t => exact congrArg nonBlank? (plain t found).1
  have resolved {n : TagName} (read : n ∈ fieldTags) :
      (Leaf.text? n.text entry.write).bind (resolve ps) = field? n entry := by
    obtain ⟨own, plain⟩ := fields n read
    rw [text read, field?, ← own]
    cases found : entry.firstLeaf? n with
    | none => rfl
    | some t =>
      have kept : resolve ps _ = some _ := resolve_of_plain (plain t found).2
      rw [Option.bind_some, nonBlank?]
      split
      · rfl
      · exact kept
  have group : (Leaf.text? "groupId" entry.write).bind (resolve ps) = _ :=
    resolved (n := groupTag) (by simp [fieldTags])
  have artifact : (Leaf.text? "artifactId" entry.write).bind (resolve ps) = _ :=
    resolved (n := artifactTag) (by simp [fieldTags])
  have version : (Leaf.text? "version" entry.write).bind (resolve ps) = _ :=
    resolved (n := versionTag) (by simp [fieldTags])
  have scope : Leaf.text? "scope" entry.write = _ := text (n := scopeTag) (by simp [fieldTags])
  have optional : Leaf.text? "optional" entry.write = _ := text (n := optionalTag) (by simp [fieldTags])
  rw [dependency?, group, artifact, version, scope, optional]
  rfl

/-- What is read are the dependencies of the project itself, one for each element and in their order, some of which are
only counted. -/
def ReadsDirect (inside : Content) : Prop :=
  let pom := parse (String.ofList (document inside).write)
  pom.dependencies = (directDependencies inside).filterMap id ∧
    pom.unresolved = (directDependencies inside).countP (·.isNone)

theorem readsDirect_of_legible {inside : Content} (one : (inside.children dependenciesTag).length ≤ 1)
    (legible : Legible inside) : ReadsDirect inside := by
  have entries (ps : Properties) :
      (Span.insides (.element "dependency") (sections (document inside).write).dependencies).map (dependency? ps) =
        directDependencies inside := by
    rw [dependencies_sections legible, ← directDependencies_remaining, directDependencies]
    have own := legible.own
    rw [← length_children_remaining] at one
    cases first : (remaining inside).first? dependenciesTag with
    | none =>
      rw [first] at own
      rw [List.head?_eq_none_iff.1 own.symm, Option.map_none, Option.getD_none, Span.insides_nil]
      rfl
    | some deps =>
      rw [first] at own
      have only : (remaining inside).children dependenciesTag = [deps] := by
        obtain ⟨later, whole⟩ := List.head?_eq_some_iff.1 own.symm
        rw [whole, List.length_cons] at one
        rw [whole, List.length_eq_zero_iff.1 (by omega : later.length = 0)]
      obtain ⟨-, unnested, told⟩ := legible.block deps first
      have spans : Span.insides (.element "dependency") deps.write = (deps.elements dependencyTag).map write :=
        insides_whole unnested
      rw [only, Option.map_some, Option.getD_some, spans, told, List.map_map]
      simp only [List.map_cons, List.map_nil, List.flatten_cons, List.flatten_nil, List.append_nil, entriesOf]
      exact List.map_congr_left fun entry listed => dependency?_write (legible.fields deps first entry listed)
  unfold ReadsDirect parse parseChars
  rw [String.toList_ofList]
  exact ⟨congrArg (List.filterMap id) (entries _), congrArg (List.countP (·.isNone)) (entries _)⟩

def leaf (n : TagName) (text : String) (rest : Content) : Content := .element n (.text text.toList .nil) rest

def entry (c : Coordinate) (further rest : Content) : Content :=
  .element dependencyTag (leaf groupTag c.group (leaf artifactTag c.artifact (leaf versionTag c.version further))) rest

def buildTag : TagName := .of "build" (by decide)

def pluginTag : TagName := .of "plugin" (by decide)

/-- A build section with a plugin that has a configuration and a dependency of its own. -/
def buildWith (configuration rest : Content) : Content :=
  .element buildTag (.element pluginTag
    (.element (.of "configuration" (by decide)) configuration
      (.element dependenciesTag (entry ⟨"p", "p", "1"⟩ .nil .nil) .nil)) .nil) rest

/-- A project with sections that have dependencies and with two dependencies itself, one of them without a version. -/
def sectionedProject : Content :=
  .element parentTag (leaf groupTag "g" .nil) <|
  .element (.of "dependencyManagement" (by decide))
    (.element dependenciesTag (entry ⟨"m", "m", "1"⟩ .nil .nil) .nil) <|
  buildWith (leaf dependencyTag "a < b" .nil) <|
  .element dependenciesTag
    (entry ⟨"g", "a", " 1 "⟩ (.element (.of "exclusions" (by decide)) (leaf groupTag "x" .nil)
        (leaf scopeTag "test" (leaf optionalTag "true" .nil)))
      (.element dependencyTag (leaf groupTag "g" (leaf artifactTag "b" .nil)) .nil)) <|
  .element (.of "profiles" (by decide)) (.element (.of "profile" (by decide)) (buildWith .nil
    (.element dependenciesTag (entry ⟨"o", "o", "1"⟩ .nil .nil) .nil)) .nil) .nil

theorem readsDirect_of_sectionedProject : (sectionedProject.children dependenciesTag).length ≤ 1 ∧
    Legible sectionedProject ∧ ReadsDirect sectionedProject ∧
    directDependencies sectionedProject = [some ⟨⟨"g", "a", "1"⟩, "test", true⟩, none] := by
  have one : (sectionedProject.children dependenciesTag).length ≤ 1 := by decide
  have legible : Legible sectionedProject :=
    ⟨by decide +kernel, by decide +kernel, by decide +kernel, by decide +kernel, by decide +kernel⟩
  exact ⟨one, legible, readsDirect_of_legible one legible, by decide +kernel⟩

/-- A project with a plugin in whose configuration a build section is mentioned. -/
def nestedBuild : Content :=
  buildWith (.element buildTag .nil .nil) (.element dependenciesTag (entry ⟨"g", "a", "1"⟩ .nil .nil) .nil)

/-- A build section that is mentioned in the configuration of a plugin ends the one that the plugin is in: the
dependencies of the plugin are read and those of the project are not. -/
theorem plugin_dependencies_read : ∃ inside : Content, (inside.children dependenciesTag).length ≤ 1 ∧
    hasPlaceholder inside.write = false ∧ ¬ ReadsDirect inside := by
  refine ⟨nestedBuild, by decide, by decide +kernel, fun reads => ?_⟩
  have read : (parseChars (document nestedBuild).write).dependencies = [⟨⟨"p", "p", "1"⟩, "compile", false⟩] := by
    decide +kernel
  have direct : directDependencies nestedBuild = [some ⟨⟨"g", "a", "1"⟩, "compile", false⟩] := by decide +kernel
  have whole := reads.1
  rw [parse, String.toList_ofList, read, direct] at whole
  revert whole
  decide

end Pom

end MigrationMining
