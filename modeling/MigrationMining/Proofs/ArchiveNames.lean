import MigrationMining.Proofs.ReleaseDirectories

/-! Which files below a root are archives of the release that is read from their place: those whose name is that of the
release with an extension, below directories that have no dot in their names. -/

namespace MigrationMining

theorem Path.below?_eq_some_iff {base p : Path} {cs : List Path.Component} :
    Path.below? base p = some cs ↔ p.components = base.components ++ cs := by
  unfold Path.below?
  split
  · next begins =>
    obtain ⟨rest, whole⟩ := List.isPrefixOf_iff_prefix.1 begins
    rw [← whole, List.drop_left, Option.some.injEq, List.append_cancel_left_eq]
  · next other =>
    refine ⟨nofun, fun whole => absurd ?_ other⟩
    exact List.isPrefixOf_iff_prefix.2 ⟨cs, whole.symm⟩

namespace Layout
open MigrationMining.Path

/-- The directories of the group on the way from a root to an archive: those before the artifact and the version. -/
def groupDirectories (root archive : Path) : List Component :=
  (archive.components.drop root.components.length).rdrop 3

/-- How a release is read from the way to a file. -/
structure ReadFrom (root archive : Path) (c : Coordinate) (directories : List Component) (file : String) : Prop where
  some_directory : directories ≠ []
  way : archive.components =
    root.components ++ directories ++ [component c.artifact, component c.version, .normal file]
  group : c.group = ".".intercalate (directories.map componentText)
  artifact : IsPart c.artifact
  version : IsPart c.version
  plain : PlainName file

variable {root archive : Path} {c : Coordinate} {directories : List Component} {file : String}

theorem exists_readFrom (found : releaseOf? root archive = some c) :
    ∃ directories file, ReadFrom root archive c directories file := by
  obtain ⟨cs, below, parts⟩ := Option.bind_eq_some_iff.1 found
  obtain ⟨texts, file, some_directory, split, group, begins⟩ := releaseOfParts?_eq_some_iff.1 parts
  obtain ⟨directories, last, rfl, rfl, fields⟩ := List.map_eq_append_iff.1 split
  obtain ⟨artifact, version, name, rfl⟩ : ∃ artifact version name, last = [artifact, version, name] :=
    List.length_eq_three.1 (by simpa using congrArg List.length fields)
  obtain ⟨artifact_text, version_text, rfl⟩ :
      componentText artifact = c.artifact ∧ componentText version = c.version ∧ componentText name = file := by
    simpa using fields
  have way := below?_eq_some_iff.1 below
  obtain ⟨d, ds, rfl⟩ := List.exists_cons_of_ne_nil (show directories ≠ [] by simpa using some_directory)
  have later {x : Component} (mem : x ∈ [artifact, version, name]) :
      IsPart (componentText x) ∧ component (componentText x) = x := by
    refine isPart_of_mem_tail (p := archive) ?_
    rw [way]
    cases root.components with
    | nil => exact List.mem_append_right ds mem
    | cons r rs => exact List.mem_append_right rs (List.mem_append_right (d :: ds) mem)
  obtain ⟨artifact_part, artifact_eq⟩ := later (x := artifact) (by simp)
  obtain ⟨version_part, version_eq⟩ := later (x := version) (by simp)
  obtain ⟨name_part, name_eq⟩ := later (x := name) (by simp)
  have dash : '-' ∈ (componentText name).toList := begins.mem (by simp)
  have plain : PlainName (componentText name) := .of_mem name_part.slashFree dash (by decide)
  rw [artifact_text] at artifact_part artifact_eq
  rw [version_text] at version_part version_eq
  rw [plain.component_eq] at name_eq
  refine ⟨d :: ds, componentText name, by simp, ?_, group, artifact_part, version_part, plain⟩
  rw [way, artifact_eq, version_eq, name_eq]
  simp

namespace ReadFrom

variable (read : ReadFrom root archive c directories file)

include read

theorem groupDirectories_eq : groupDirectories root archive = directories := by
  rw [groupDirectories, read.way, List.append_assoc, List.drop_left]
  simp [List.rdrop]

theorem fileName?_eq : archive.fileName? = some file := by
  rw [fileName?, read.way]
  simp

theorem mem_components {d : Component} (mem : d ∈ directories) : d ∈ archive.components := by
  rw [read.way]
  exact List.mem_append_left _ (List.mem_append_right _ mem)

theorem exists_head?_group : ∃ d ds, directories = d :: ds ∧ c.group.toList.head? = (componentText d).toList.head? := by
  obtain ⟨d, ds, rfl⟩ := List.exists_cons_of_ne_nil read.some_directory
  have filled := componentText_ne_of_mem (read.mem_components List.mem_cons_self)
  refine ⟨d, ds, rfl, ?_⟩
  rw [read.group, toList_intercalate_dot, List.map_cons, List.map_cons,
    Text.head?_joinWith (mt String.toList_eq_nil_iff.1 filled)]

theorem group_ne : c.group ≠ "" := by
  obtain ⟨d, ds, rfl, head⟩ := read.exists_head?_group
  have filled := componentText_ne_of_mem (read.mem_components List.mem_cons_self)
  intro none
  rw [none] at head
  exact filled (by simpa using head.symm)

theorem namedIn_groupPath_eq (dotless : ∀ d ∈ directories, '.' ∉ (componentText d).toList) :
    Path.namedIn (groupPath c.group) = directories.flatMap fun d => Path.namedIn (componentText d) := by
  have pieces : Text.splitOn '.' c.group.toList = (directories.map componentText).map String.toList := by
    rw [read.group]
    exact splitOn_intercalate_dot (by simpa using read.some_directory) (by simpa using dotless)
  rw [namedIn_groupPath, pieces]
  simp [List.flatMap_map]

theorem way_to_group (dotless : ∀ d ∈ directories, '.' ∉ (componentText d).toList) :
    (if Path.isAbsolute ⟨groupPath c.group⟩ then [.root] else root.components) ++ Path.namedIn (groupPath c.group) =
      root.components ++ directories := by
  obtain ⟨d, ds, rfl, head⟩ := read.exists_head?_group
  obtain ⟨level, later⟩ := List.forall_mem_cons.1 dotless
  have in_tail {x : Component} (mem : x ∈ ds ∨ root.components ≠ [] ∧ x = d) : x ∈ archive.components.tail := by
    rw [read.way]
    cases front : root.components with
    | nil => exact List.mem_append_left _ (mem.resolve_right fun other => other.1 front)
    | cons r rs =>
      refine List.mem_append_left _ (List.mem_append_right rs ?_)
      rcases mem with mem | ⟨-, rfl⟩
      · exact List.mem_cons_of_mem d mem
      · exact List.mem_cons_self
  have rest : ds.flatMap (fun x => Path.namedIn (componentText x)) = ds := by
    have each : ∀ x ∈ ds, Path.namedIn (componentText x) = [x] := by
      intro x mem
      obtain ⟨part, same⟩ := isPart_of_mem_tail (in_tail (.inl mem))
      rw [part.namedIn, same]
    rw [List.flatMap_congr each]
    simp
  have absolute := isAbsolute_groupPath c.group
  rw [head] at absolute
  rw [read.namedIn_groupPath_eq dotless, List.flatMap_cons, rest]
  rcases isPart_of_mem (read.mem_components List.mem_cons_self) with rfl | rfl | ⟨part, same⟩
  · have first : root.components = [] := by
      by_contra some_component
      exact (isPart_of_mem_tail (in_tail (.inr ⟨some_component, rfl⟩))).1.slashFree (by decide)
    rw [if_pos (absolute.2 (.inr rfl)), first]
    rfl
  · exact absurd (by decide) level
  · have relative : ¬ Path.isAbsolute ⟨groupPath c.group⟩ := by
      rw [absolute]
      rintro (dot | slash)
      · exact level (List.mem_of_mem_head? dot)
      · exact part.slashFree (List.mem_of_mem_head? slash)
    rw [if_neg relative, part.namedIn, same, List.singleton_append]

theorem components_archivePath (extension : String) : (archivePath root c extension).components =
    (if Path.isAbsolute ⟨groupPath c.group⟩ then [.root] else root.components) ++ Path.namedIn (groupPath c.group) ++
      [component c.artifact, component c.version] ++ Path.namedIn (fileName c extension) :=
  components_archivePath_of_isPart read.group_ne read.artifact read.version root extension

end ReadFrom

theorem dot_notMem_of_way (way : root.components ++ directories =
    (if Path.isAbsolute ⟨groupPath c.group⟩ then [.root] else root.components) ++ Path.namedIn (groupPath c.group))
    {d : Component} (mem : d ∈ directories) : '.' ∉ (componentText d).toList := by
  split at way
  · have there : d ∈ [.root] ++ Path.namedIn (groupPath c.group) := way ▸ List.mem_append_right _ mem
    rcases List.mem_append.1 there with root | named
    · rw [List.mem_singleton.1 root]
      decide
    · exact dot_notMem_of_mem_groupPath named
  · exact dot_notMem_of_mem_groupPath (List.append_cancel_left way ▸ mem)

/-- A file that a release is read from is its archive with some extension if and only if the directories of the group have
no dot in their names and the name of the file is that of the release with an extension. -/
theorem releaseOf?_reads_archivePath_iff (found : releaseOf? root archive = some c) :
    (∃ extension : String, '/' ∉ extension.toList ∧ archive.components = (archivePath root c extension).components) ↔
      (∀ d ∈ groupDirectories root archive, '.' ∉ (componentText d).toList) ∧
        ∃ extension, archive.fileName? = some (fileName c extension) := by
  obtain ⟨directories, file, read⟩ := exists_readFrom found
  rw [read.groupDirectories_eq, read.fileName?_eq]
  constructor
  · rintro ⟨extension, slashFree, same⟩
    have plain := plainName_fileName read.artifact.slashFree read.version.slashFree slashFree
    rw [read.way, read.components_archivePath, plain.isPart.namedIn, plain.component_eq,
      List.append_assoc _ [_, _] [_]] at same
    obtain ⟨way, last⟩ := List.append_inj' same rfl
    have own : file = fileName c extension := by simpa using last
    exact ⟨fun d => dot_notMem_of_way way, extension, congrArg some own⟩
  · rintro ⟨dotless, extension, own⟩
    obtain rfl := Option.some.inj own
    refine ⟨extension, ?_, ?_⟩
    · have slashFree := read.plain.slashFree
      rw [toList_fileName] at slashFree
      simp at slashFree
      exact slashFree.2.2
    · rw [read.way, read.components_archivePath, read.way_to_group dotless, read.plain.isPart.namedIn,
        read.plain.component_eq]
      simp

theorem releaseOf?_reads_spelled_archive :
    releaseOf? ⟨"data"⟩ ⟨"data//org/./acme/a-b/1.0/a-b-1.0.tar.gz"⟩ = some ⟨"org.acme", "a-b", "1.0"⟩ ∧
      ∃ extension : String, '/' ∉ extension.toList ∧
        (⟨"data//org/./acme/a-b/1.0/a-b-1.0.tar.gz"⟩ : Path).components =
          (archivePath ⟨"data"⟩ ⟨"org.acme", "a-b", "1.0"⟩ extension).components := by
  have found : releaseOf? ⟨"data"⟩ ⟨"data//org/./acme/a-b/1.0/a-b-1.0.tar.gz"⟩ = some ⟨"org.acme", "a-b", "1.0"⟩ := by
    decide +kernel
  exact ⟨found, (releaseOf?_reads_archivePath_iff found).2 ⟨by decide +kernel, "tar.gz", by decide +kernel⟩⟩

/-- A release is read from the archive of a longer version, from one with a classifier and from one below a directory with a
dot in its name, although none of the three is its archive with any extension. -/
theorem releaseOf?_reads_other_files :
    releaseOf? ⟨"data"⟩ ⟨"data/g/a/1/a-10.jar"⟩ = some ⟨"g", "a", "1"⟩ ∧
      releaseOf? ⟨"data"⟩ ⟨"data/g/a/1/a-1-sources.jar"⟩ = some ⟨"g", "a", "1"⟩ ∧
      releaseOf? ⟨"data"⟩ ⟨"data/g.h/a/1/a-1.jar"⟩ = some ⟨"g.h", "a", "1"⟩ ∧
      ∀ extension,
        (⟨"data/g/a/1/a-10.jar"⟩ : Path).components ≠ (archivePath ⟨"data"⟩ ⟨"g", "a", "1"⟩ extension).components ∧
        (⟨"data/g/a/1/a-1-sources.jar"⟩ : Path).components ≠
          (archivePath ⟨"data"⟩ ⟨"g", "a", "1"⟩ extension).components ∧
        (⟨"data/g.h/a/1/a-1.jar"⟩ : Path).components ≠
          (archivePath ⟨"data"⟩ ⟨"g.h", "a", "1"⟩ extension).components := by
  refine ⟨by decide +kernel, by decide +kernel, by decide +kernel, fun extension => ?_⟩
  have part : IsPart "a" ∧ IsPart "1" := ⟨⟨by decide, by decide, by decide⟩, ⟨by decide, by decide, by decide⟩⟩
  have way (group : String) (named : group ≠ "") := components_archivePath_of_isPart (c := ⟨group, "a", "1"⟩) named part.1
    part.2 ⟨"data"⟩ extension
  have single : (archivePath ⟨"data"⟩ ⟨"g", "a", "1"⟩ extension).components =
      [.normal "data", .normal "g", .normal "a", .normal "1"] ++ Path.namedIn (fileName ⟨"g", "a", "1"⟩ extension) :=
    way "g" (by decide)
  have double : (archivePath ⟨"data"⟩ ⟨"g.h", "a", "1"⟩ extension).components =
      [.normal "data", .normal "g", .normal "h", .normal "a", .normal "1"] ++
        Path.namedIn (fileName ⟨"g.h", "a", "1"⟩ extension) := way "g.h" (by decide)
  obtain ⟨own, rest, name⟩ := exists_namedIn_fileName (c := ⟨"g", "a", "1"⟩) (by decide) (by decide) extension
  have other (file : String) (whole : (⟨"data/g/a/1/" ++ file⟩ : Path).components =
      [.normal "data", .normal "g", .normal "a", .normal "1", .normal file]) (undotted : file.toList[3]? ≠ some '.') :
      (⟨"data/g/a/1/" ++ file⟩ : Path).components ≠ (archivePath ⟨"data"⟩ ⟨"g", "a", "1"⟩ extension).components := by
    rw [whole, single, name]
    intro same
    obtain ⟨own_file, -⟩ : file = fileName ⟨"g", "a", "1"⟩ own ∧ rest = [] := by simpa using same
    rw [own_file, toList_fileName] at undotted
    exact undotted rfl
  have longer := other "a-10.jar" (by decide +kernel) (by decide)
  have classified := other "a-1-sources.jar" (by decide +kernel) (by decide)
  refine ⟨longer, classified, ?_⟩
  have dotted : (⟨"data/g.h/a/1/a-1.jar"⟩ : Path).components =
      [.normal "data", .normal "g.h", .normal "a", .normal "1", .normal "a-1.jar"] := by decide +kernel
  rw [dotted, double]
  simp

end Layout
end MigrationMining
