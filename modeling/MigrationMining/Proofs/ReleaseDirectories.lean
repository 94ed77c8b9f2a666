import Mathlib.Data.List.DropRight
import MigrationMining.Proofs.ArchivePlaces

/-! The directories of a release, one for each part of its group and one each for its artifact and its version, as the way to
its archive and as what a release is read from. -/

namespace MigrationMining

/-- Each separator becomes a slash: the pieces between slashes are those of the pieces between separators. -/
theorem Text.splitOn_map_slash (sep : Char) (cs : List Char) :
    splitOn '/' (cs.map fun c => if c = sep then '/' else c) = (splitOn sep cs).flatMap (splitOn '/') := by
  induction cs with
  | nil => simp [splitOn]
  | cons c cs ih =>
    by_cases cut : c = sep
    · simp [splitOn, cut, ih]
    · obtain ⟨piece, pieces, rest, whole⟩ := exists_splitOn_cons cut cs
      rw [rest, List.flatMap_cons] at ih
      rw [whole, List.flatMap_cons, List.map_cons, if_neg cut]
      by_cases slash : c = '/'
      · simp [splitOn, slash, ih]
      · obtain ⟨first, later, inner, outer⟩ := exists_splitOn_cons slash piece
        rw [inner, List.cons_append] at ih
        simp [splitOn, slash, ih, inner]

theorem Text.splitOn_append_of_notMem {sep : Char} {p q first : List Char} {rest : List (List Char)} (free : sep ∉ p)
    (cut : splitOn sep q = first :: rest) : splitOn sep (p ++ q) = (p ++ first) :: rest := by
  induction p with
  | nil => exact cut
  | cons c p ih =>
    obtain ⟨other, free⟩ : sep ≠ c ∧ sep ∉ p := by simpa using free
    simp [splitOn, Ne.symm other, ih free]

namespace Path

/-- A text that stands for one component, wherever it comes in a path. -/
structure IsPart (part : String) : Prop where
  slashFree : '/' ∉ part.toList
  nonempty : part ≠ ""
  named : part ≠ "."

def component (part : String) : Component := if part = ".." then .parent else .normal part

theorem IsPart.componentOf? {part : String} (h : IsPart part) : componentOf? part.toList = some (component part) := by
  have filled : ¬ (part.toList = [] ∨ part.toList = ['.']) := by
    rintro (empty | dot)
    · exact h.nonempty (String.toList_inj.1 empty)
    · exact h.named (String.toList_inj.1 dot)
  rw [Path.componentOf?, if_neg filled, component, String.ofList_toList]
  by_cases up : part = ".."
  · subst up
    rfl
  · have level : part.toList ≠ ['.', '.'] := fun same => up (String.toList_inj.1 same)
    rw [if_neg up, if_neg level]

theorem IsPart.namedIn {part : String} (h : IsPart part) : namedIn part = [component part] := by
  rw [Path.namedIn, Text.splitOn_of_notMem h.slashFree, List.filterMap_cons_some h.componentOf?, List.filterMap_nil]

theorem IsPart.not_isAbsolute {part : String} (h : IsPart part) : isAbsolute ⟨part⟩ = false :=
  decide_eq_false fun head => h.slashFree (List.mem_of_mem_head? head)

@[simp] theorem componentText_component (part : String) : Layout.componentText (component part) = part := by
  unfold component
  split
  · next up => rw [up, Layout.componentText]
  · rfl

theorem PlainName.isPart {name : String} (plain : PlainName name) : IsPart name where
  slashFree := plain.slashFree
  nonempty empty := plain.toList_ne.1 (by rw [empty]; rfl)
  named dot := plain.toList_ne.2.1 (by rw [dot]; rfl)

theorem PlainName.component_eq {name : String} (plain : PlainName name) : component name = .normal name := by
  rw [component, if_neg]
  rintro rfl
  exact plain.toList_ne.2.2 rfl

theorem isPart_up : IsPart ".." := ⟨by decide, by decide, by decide⟩

theorem isPart_of_mem_namedIn {text : String} {c : Component} (mem : c ∈ namedIn text) :
    IsPart (Layout.componentText c) ∧ component (Layout.componentText c) = c := by
  rcases eq_parent_or_normal_of_mem mem with rfl | ⟨name, rfl, plain⟩
  · exact ⟨isPart_up, rfl⟩
  · exact ⟨plain.isPart, plain.component_eq⟩

theorem isPart_of_mem_tail {p : Path} {c : Component} (mem : c ∈ p.components.tail) :
    IsPart (Layout.componentText c) ∧ component (Layout.componentText c) = c :=
  isPart_of_mem_namedIn (mem_namedIn_of_mem_tail mem)

theorem isPart_of_mem {p : Path} {c : Component} (mem : c ∈ p.components) : c = .root ∨ c = .current ∨
    IsPart (Layout.componentText c) ∧ component (Layout.componentText c) = c := by
  simp only [components] at mem
  rcases List.mem_append.1 mem with first | later
  · split at first
    · exact .inl (List.mem_singleton.1 first)
    · split at first
      · exact .inr (.inl (List.mem_singleton.1 first))
      · cases first
  · exact .inr (.inr (isPart_of_mem_namedIn (show c ∈ namedIn p.text from later)))

theorem componentText_ne_of_mem {p : Path} {c : Component} (mem : c ∈ p.components) : Layout.componentText c ≠ "" := by
  rcases isPart_of_mem mem with rfl | rfl | ⟨part, -⟩
  · decide
  · decide
  · exact part.nonempty

end Path

namespace Layout
open MigrationMining.Path

variable {c : Coordinate} {extension : String}

theorem toList_fileName (c : Coordinate) (extension : String) : (fileName c extension).toList =
    c.artifact.toList ++ '-' :: (c.version.toList ++ '.' :: extension.toList) := by
  have dash : "-".toList = ['-'] := rfl
  have dot : ".".toList = ['.'] := rfl
  simp [fileName, dash, dot]

theorem plainName_fileName (artifact : '/' ∉ c.artifact.toList) (version : '/' ∉ c.version.toList)
    (slashFree : '/' ∉ extension.toList) : PlainName (fileName c extension) := by
  refine .of_mem (c := '-') ?_ ?_ (by decide)
  · simp [toList_fileName, artifact, version, slashFree]
  · simp [toList_fileName]

theorem namedIn_groupPath (group : String) : Path.namedIn (groupPath group) =
    (Text.splitOn '.' group.toList).flatMap fun piece => Path.namedIn (String.ofList piece) := by
  simp only [Path.namedIn, toList_groupPath, Text.splitOn_map_slash, List.filterMap_flatMap, String.toList_ofList]

theorem dot_notMem_of_mem_groupPath {group : String} {d : Component} (mem : d ∈ Path.namedIn (groupPath group)) :
    '.' ∉ (componentText d).toList := by
  obtain ⟨piece, cut, named⟩ := List.mem_filterMap.1 mem
  have free : '.' ∉ piece := fun here => dot_notMem_groupPath group (Text.mem_of_mem_splitOn cut here)
  rcases componentOf?_eq_some named with rfl | rfl
  · rw [componentOf?_eq_parent_iff.1 named] at free
    exact absurd List.mem_cons_self free
  · rwa [componentText, String.toList_ofList]

/-- The components of an archive whose artifact and version are one part each. A group that begins with a slash, or with a
dot, which stands for one, replaces the root. -/
theorem components_archivePath_of_isPart (named : c.group ≠ "") (artifact : IsPart c.artifact) (version : IsPart c.version)
    (root : Path) (extension : String) : (archivePath root c extension).components =
      (if Path.isAbsolute ⟨groupPath c.group⟩ then [.root] else root.components) ++ Path.namedIn (groupPath c.group) ++
        [component c.artifact, component c.version] ++ Path.namedIn (fileName c extension) := by
  have file : Path.isAbsolute ⟨fileName c extension⟩ = false := by rw [isAbsolute_fileName, artifact.not_isAbsolute]
  have own : Path.isEmpty ⟨groupPath c.group⟩ = false := by
    simpa [Path.isEmpty_eq_false_iff, toList_groupPath] using named
  have nonempty : (root.join ⟨groupPath c.group⟩).isEmpty = false := by rw [Path.isEmpty_join, own, Bool.and_false]
  have group : (root.join ⟨groupPath c.group⟩).components =
      (if Path.isAbsolute ⟨groupPath c.group⟩ then [.root] else root.components) ++ Path.namedIn (groupPath c.group) := by
    cases absolute : Path.isAbsolute ⟨groupPath c.group⟩ with
    | true =>
      rw [Path.join_eq_of_absolute absolute, Path.components, if_pos absolute, if_pos rfl, Path.namedIn]
    | false =>
      rw [if_neg Bool.false_ne_true]
      refine Path.components_join_of_named root absolute fun first => ?_
      exact dot_notMem_groupPath c.group (Text.mem_of_mem_splitOn (List.mem_of_mem_head? first) List.mem_cons_self)
  rw [archivePath_eq, Path.components_join file, Path.components_join version.not_isAbsolute,
    Path.components_join artifact.not_isAbsolute nonempty, group, artifact.namedIn, version.namedIn]
  · simp
  · rw [Path.isEmpty_join, nonempty, Bool.false_and]
  · rw [Path.isEmpty_join, Path.isEmpty_join, nonempty, Bool.false_and, Bool.false_and]

theorem exists_namedIn_fileName (artifact : '/' ∉ c.artifact.toList) (version : '/' ∉ c.version.toList)
    (extension : String) : ∃ own rest, Path.namedIn (fileName c extension) = .normal (fileName c own) :: rest := by
  obtain ⟨first, pieces, cut⟩ := List.exists_cons_of_ne_nil (Text.splitOn_ne_nil '/' extension.toList)
  have free : '/' ∉ first := Text.notMem_of_mem_splitOn (cut ▸ List.mem_cons_self)
  have plain : PlainName (fileName c (String.ofList first)) :=
    plainName_fileName artifact version (by simpa using free)
  have front : '/' ∉ c.artifact.toList ++ '-' :: (c.version.toList ++ ['.']) := by simp [artifact, version]
  have pieces := Text.splitOn_append_of_notMem front cut
  have own : (c.artifact.toList ++ '-' :: (c.version.toList ++ ['.'])) ++ first =
      (fileName c (String.ofList first)).toList := by simp [toList_fileName]
  have whole : (c.artifact.toList ++ '-' :: (c.version.toList ++ ['.'])) ++ extension.toList =
      (fileName c extension).toList := by simp [toList_fileName]
  rw [own, whole] at pieces
  exact ⟨String.ofList first, _, by rw [Path.namedIn, pieces, List.filterMap_cons_some plain.ordinary]⟩

/-- Parts lead to a release if there is a directory before those of the artifact and the version, and the name of the file
begins with the two. -/
theorem releaseOfParts?_eq_some_iff {parts : List String} : releaseOfParts? parts = some c ↔
    ∃ directories file, directories ≠ [] ∧ parts = directories ++ [c.artifact, c.version, file] ∧
      c.group = ".".intercalate directories ∧ (c.artifact ++ "-" ++ c.version).toList <+: file.toList := by
  constructor
  · intro found
    unfold releaseOfParts? at found
    split at found
    · next file version artifact g gs parts_reverse =>
      split at found
      · next begins =>
        cases found
        refine ⟨(g :: gs).reverse, file, by simp, ?_, rfl, List.isPrefixOf_iff_prefix.1 begins⟩
        rw [← List.reverse_inj, parts_reverse]
        simp
      · cases found
    · cases found
  · rintro ⟨directories, file, some_directory, rfl, group, begins⟩
    obtain ⟨g, gs, backwards⟩ := List.exists_cons_of_ne_nil (mt List.reverse_eq_nil_iff.1 some_directory)
    have whole : (directories ++ [c.artifact, c.version, file]).reverse =
        file :: c.version :: c.artifact :: g :: gs := by
      simp [backwards]
    rw [releaseOfParts?, whole]
    simp only
    rw [if_pos (List.isPrefixOf_iff_prefix.2 begins), ← backwards, List.reverse_reverse, ← group]

theorem toList_intercalate_dot (parts : List String) :
    (".".intercalate parts).toList = Text.joinWith ['.'] (parts.map String.toList) := by
  have dot : ".".toList = ['.'] := rfl
  rw [String.toList_intercalate, Text.joinWith_eq_intercalate, dot]

theorem splitOn_intercalate_dot {directories : List String} (some_directory : directories ≠ [])
    (whole : ∀ d ∈ directories, '.' ∉ d.toList) :
    Text.splitOn '.' (".".intercalate directories).toList = directories.map String.toList := by
  rw [toList_intercalate_dot]
  refine Text.splitOn_joinWith (by simpa using some_directory) fun piece mem => ?_
  obtain ⟨d, listed, rfl⟩ := List.mem_map.1 mem
  exact whole d listed

end Layout
end MigrationMining
