import MigrationMining.Console.Run
import MigrationMining.Proofs.FirstAndLast
import MigrationMining.Proofs.ReleaseDirectories

/-! Which releases are read from the places of their archives below the directories for libraries and clients: those of which
no part of the group, nor the artifact, nor the version has the name of such a directory. -/

namespace MigrationMining

def Layout.storeNames : List String := [DatasetFiles.librariesName, DatasetFiles.clientsName]

namespace Coordinate

def segments (c : Coordinate) : List String := (Text.splitOn '.' c.group.toList).map String.ofList

/-- Each part of the group, the artifact and the version is a directory of its own on the way to the archive. -/
structure Layered (c : Coordinate) : Prop where
  group : ∀ segment ∈ c.segments, segment ≠ "" ∧ '/' ∉ segment.toList
  artifact : Path.IsPart c.artifact
  version : Path.IsPart c.version

variable {c : Coordinate}

theorem map_toList_segments (c : Coordinate) : c.segments.map String.toList = Text.splitOn '.' c.group.toList := by
  simp [segments]

theorem segments_ne_nil (c : Coordinate) : c.segments ≠ [] := by
  simpa [segments] using Text.splitOn_ne_nil '.' c.group.toList

theorem dot_notMem_of_mem_segments {segment : String} (mem : segment ∈ c.segments) : '.' ∉ segment.toList := by
  obtain ⟨piece, cut, rfl⟩ := List.mem_map.1 mem
  rw [String.toList_ofList]
  exact Text.notMem_of_mem_splitOn cut

theorem intercalate_segments (c : Coordinate) : ".".intercalate c.segments = c.group := by
  rw [← String.toList_inj, Layout.toList_intercalate_dot, map_toList_segments, Text.joinWith_splitOn]

theorem eq_segments_of_intercalate {parts : List String} (some_part : parts ≠ []) (whole : ∀ part ∈ parts, '.' ∉ part.toList)
    (group : ".".intercalate parts = c.group) : parts = c.segments := by
  rw [segments, ← group, Layout.splitOn_intercalate_dot some_part whole, List.map_map]
  simp [Function.comp_def]

namespace Layered

variable (layered : c.Layered)

include layered

theorem plainName_of_mem {segment : String} (mem : segment ∈ c.segments) : Path.PlainName segment := by
  obtain ⟨nonempty, slashFree⟩ := layered.group segment mem
  obtain ⟨ch, here⟩ := List.exists_mem_of_ne_nil _ (mt String.toList_eq_nil_iff.1 nonempty)
  refine .of_mem slashFree here ?_
  rintro rfl
  exact dot_notMem_of_mem_segments mem here

theorem group_ne : c.group ≠ "" := by
  intro none
  have single : c.segments = [""] := by rw [segments, none]; rfl
  exact (layered.group "" (by rw [single]; exact List.mem_singleton_self _)).1 rfl

theorem namedIn_groupPath : Path.namedIn (Layout.groupPath c.group) = c.segments.map Path.component := by
  have each : ∀ segment ∈ c.segments, Path.namedIn segment = [Path.component segment] :=
    fun segment mem => (layered.plainName_of_mem mem).isPart.namedIn
  calc Path.namedIn (Layout.groupPath c.group)
      = c.segments.flatMap Path.namedIn := by rw [Layout.namedIn_groupPath, segments, List.flatMap_map]
    _ = c.segments.flatMap fun segment => [Path.component segment] := List.flatMap_congr each
    _ = c.segments.map Path.component := List.flatMap_pure_eq_map _ _

theorem not_isAbsolute_groupPath : Path.isAbsolute ⟨Layout.groupPath c.group⟩ = false := by
  rw [Bool.eq_false_iff, ne_eq, Layout.isAbsolute_groupPath]
  obtain ⟨first, rest, cut⟩ := List.exists_cons_of_ne_nil c.segments_ne_nil
  have plain := layered.plainName_of_mem (cut ▸ List.mem_cons_self)
  have head : c.group.toList.head? = first.toList.head? := by
    have chars := congrArg String.toList c.intercalate_segments
    rw [Layout.toList_intercalate_dot, cut, List.map_cons] at chars
    rw [← chars, Text.head?_joinWith plain.toList_ne.1]
  rw [head]
  rintro (dot | slash)
  · exact dot_notMem_of_mem_segments (cut ▸ List.mem_cons_self) (List.mem_of_mem_head? dot)
  · exact plain.slashFree (List.mem_of_mem_head? slash)

theorem components_archivePath (root : Path) : (Layout.archivePath root c "jar").components = root.components ++
    (c.segments ++ [c.artifact, c.version, Layout.fileName c "jar"]).map Path.component := by
  have file : Path.PlainName (Layout.fileName c "jar") :=
    Layout.plainName_fileName layered.artifact.slashFree layered.version.slashFree (by decide)
  rw [Layout.components_archivePath_of_isPart layered.group_ne layered.artifact layered.version,
    layered.not_isAbsolute_groupPath, if_neg Bool.false_ne_true, layered.namedIn_groupPath, file.isPart.namedIn]
  simp

end Layered
end Coordinate

namespace Layout
open MigrationMining.Path

variable {names : List String}

theorem belowLast?_cons (c : Component) (cs : List Component) : belowLast? names (c :: cs) =
    (belowLast? names cs).or (if c ∈ names.map .normal then some cs else none) := by
  cases below : belowLast? names cs with
  | some found => simp [belowLast?, below]
  | none => cases c <;> simp [belowLast?, below]

theorem belowLast?_append (xs ys : List Component) : belowLast? names (xs ++ ys) =
    (belowLast? names ys).or ((belowLast? names xs).map (· ++ ys)) := by
  induction xs with
  | nil => simp [belowLast?]
  | cons x xs ih =>
    rw [List.cons_append, belowLast?_cons, ih, belowLast?_cons, Option.map_or, Option.or_assoc]
    split <;> rfl

theorem belowLast?_map_component {parts : List String} (other : ∀ part ∈ parts, part ∉ names) :
    belowLast? names (parts.map component) = none := by
  induction parts with
  | nil => rfl
  | cons part parts ih =>
    obtain ⟨first, later⟩ := List.forall_mem_cons.1 other
    have unnamed : component part ∉ names.map .normal := by
      unfold component
      split <;> simp [first]
    rw [List.map_cons, belowLast?_cons, ih later, if_neg unnamed, Option.or_none]

theorem releaseBelow?_of_components {p : Path} {cs : List Component} {name : String} {parts : List String}
    (way : p.components = cs ++ (name :: parts).map component) (stored : name ∈ names) (level : ".." ∉ names)
    (other : ∀ part ∈ parts, part ∉ names) : releaseBelow? names p = releaseOfParts? parts := by
  have plain : component name = .normal name := by
    refine if_neg ?_
    rintro rfl
    exact level stored
  have texts : (parts.map component).map componentText = parts := by simp [Function.comp_def]
  have below : belowLast? names ((name :: parts).map component) = some (parts.map component) := by
    rw [List.map_cons, plain, belowLast?_cons, belowLast?_map_component other, if_pos (List.mem_map_of_mem stored),
      Option.none_or]
  rw [releaseBelow?, way, belowLast?_append, below, Option.some_or, Option.bind_some, texts]

end Layout

namespace Console
open Layout

variable {c : Coordinate} {store : String}

def storedAt (dataset : Path) (store : String) (c : Coordinate) : Path := archivePath (dataset / store) c "jar"

theorem archiveRelease?_of_components {p : Path} {cs : List Path.Component} {name : String} {parts : List String}
    (way : p.components = cs ++ (name :: parts).map Path.component) (stored : name ∈ storeNames)
    (other : ∀ part ∈ parts, part ∉ storeNames) : archiveRelease? p = releaseOfParts? parts :=
  releaseBelow?_of_components way stored (by decide) other

theorem plainName_of_mem_storeNames (here : store ∈ storeNames) : Path.PlainName store := by
  have free : ∀ name ∈ storeNames, '/' ∉ name.toList ∧ Path.componentOf? name.toList = some (.normal name) := by
    decide +kernel
  exact ⟨(free store here).1, (free store here).2⟩

theorem fileName_notMem_storeNames (c : Coordinate) : fileName c "jar" ∉ storeNames := by
  have dash : ∀ name ∈ storeNames, '-' ∉ name.toList := by decide +kernel
  intro mem
  exact dash _ mem (by simp [toList_fileName])

/-- Below the last directory with the name of a store an archive is read as the release of the directories there. -/
theorem archiveRelease?_of_directories {p : Path} {cs : List Path.Component} {name : String} {directories : List String}
    (way : p.components =
      cs ++ (name :: (directories ++ [c.artifact, c.version, fileName c "jar"])).map Path.component)
    (stored : name ∈ storeNames) (own : ∀ part ∈ directories ++ [c.artifact, c.version], part ∉ storeNames) :
    archiveRelease? p =
      if directories = [] then none else some ⟨".".intercalate directories, c.artifact, c.version⟩ := by
  have parts : ∀ part ∈ directories ++ [c.artifact, c.version, fileName c "jar"], part ∉ storeNames := by
    have all : directories ++ [c.artifact, c.version, fileName c "jar"] =
        (directories ++ [c.artifact, c.version]) ++ [fileName c "jar"] := by simp
    rw [all]
    exact List.forall_mem_append.2 ⟨own, List.forall_mem_singleton.2 (fileName_notMem_storeNames c)⟩
  refine (archiveRelease?_of_components way stored parts).trans ?_
  split
  · next none =>
    rw [none]
    rfl
  · next some_directory =>
    refine releaseOfParts?_eq_some_iff.2 ⟨directories, fileName c "jar", some_directory, rfl, rfl, ?_⟩
    exact ⟨".jar".toList, by simp [fileName]⟩

section Stored

variable (layered : c.Layered) (dataset : Path) (here : store ∈ storeNames)

include layered here

theorem components_storedAt : (storedAt dataset store c).components = dataset.components ++
    (store :: (c.segments ++ [c.artifact, c.version, fileName c "jar"])).map Path.component := by
  have plain := plainName_of_mem_storeNames here
  rw [storedAt, layered.components_archivePath, Path.components_div _ plain, List.map_cons, plain.component_eq]
  simp

/-- An archive that no directory with the name of a store stands above, but the store, is read as its own release. -/
theorem archiveRelease?_of_notMem (own : ∀ part ∈ c.segments ++ [c.artifact, c.version], part ∉ storeNames) :
    archiveRelease? (storedAt dataset store c) = some c := by
  have way := components_storedAt layered dataset here
  rw [archiveRelease?_of_directories way here own, if_neg c.segments_ne_nil, c.intercalate_segments]

theorem archiveRelease?_of_field (field : c.artifact ∈ storeNames ∨ c.version ∈ storeNames) :
    archiveRelease? (storedAt dataset store c) = none := by
  have way := components_storedAt layered dataset here
  have file : fileName c "jar" ∉ storeNames := fileName_notMem_storeNames c
  by_cases version : c.version ∈ storeNames
  · have split : (storedAt dataset store c).components = (dataset.components ++
        (store :: (c.segments ++ [c.artifact])).map Path.component) ++
        (c.version :: [fileName c "jar"]).map Path.component := by simp [way]
    exact archiveRelease?_of_components split version (by simpa using file)
  · have split : (storedAt dataset store c).components = (dataset.components ++
        (store :: c.segments).map Path.component) ++
        (c.artifact :: [c.version, fileName c "jar"]).map Path.component := by simp [way]
    have artifact := field.resolve_right version
    exact archiveRelease?_of_components split artifact (by simpa using ⟨version, file⟩)

/-- Of a group with a part that has the name of a store only the parts after the last such part are read. -/
theorem archiveRelease?_of_segment {before after : List String} {name : String}
    (segments : c.segments = before ++ name :: after) (stored : name ∈ storeNames)
    (own : ∀ part ∈ after ++ [c.artifact, c.version], part ∉ storeNames) :
    archiveRelease? (storedAt dataset store c) =
      if after = [] then none else some ⟨".".intercalate after, c.artifact, c.version⟩ := by
  have split : (storedAt dataset store c).components =
      (dataset.components ++ (store :: before).map Path.component) ++
        (name :: (after ++ [c.artifact, c.version, fileName c "jar"])).map Path.component := by
    simp [components_storedAt layered dataset here, segments]
  exact archiveRelease?_of_directories split stored own

end Stored

/-- A stored archive is read as the release it was stored for if and only if no part of the group, nor the artifact, nor the
version has the name of a directory for archives. It is read as none if the artifact or the version has, and otherwise as
the release of what comes after the last such part of the group. -/
theorem archiveRelease?_storedAt_iff (layered : c.Layered) (dataset : Path) (here : store ∈ storeNames) :
    (archiveRelease? (storedAt dataset store c) = some c ↔
      ∀ part ∈ c.segments ++ [c.artifact, c.version], part ∉ storeNames) ∧
    (c.artifact ∈ storeNames ∨ c.version ∈ storeNames → archiveRelease? (storedAt dataset store c) = none) ∧
    ∀ before name after, c.segments = before ++ name :: after → name ∈ storeNames →
      (∀ part ∈ after ++ [c.artifact, c.version], part ∉ storeNames) →
      archiveRelease? (storedAt dataset store c) =
        if after = [] then none else some ⟨".".intercalate after, c.artifact, c.version⟩ := by
  refine ⟨⟨fun read => ?_, archiveRelease?_of_notMem layered dataset here⟩,
    archiveRelease?_of_field layered dataset here,
    fun before name after => archiveRelease?_of_segment layered dataset here⟩
  intro part mem stored
  by_cases field : c.artifact ∈ storeNames ∨ c.version ∈ storeNames
  · rw [archiveRelease?_of_field layered dataset here field] at read
    cases read
  · obtain ⟨artifact, version⟩ := not_or.1 field
    have segment : part ∈ c.segments := by
      rcases List.mem_append.1 mem with segment | last
      · exact segment
      · rcases List.mem_pair.1 last with rfl | rfl
        · exact absurd stored artifact
        · exact absurd stored version
    obtain ⟨name, named, before, after, segments, own⟩ := exists_isLast (p := (· ∈ storeNames)) segment stored
    have free : ∀ part ∈ after ++ [c.artifact, c.version], part ∉ storeNames := by
      simpa [or_imp, forall_and] using ⟨own, artifact, version⟩
    rw [archiveRelease?_of_segment layered dataset here segments named free] at read
    split at read
    · cases read
    · next some_part =>
      have dotless : ∀ part ∈ after, '.' ∉ part.toList := by
        intro part mem
        exact c.dot_notMem_of_mem_segments (segments ▸ List.mem_append_right _ (List.mem_cons_of_mem _ mem))
      have group := congrArg Coordinate.group (Option.some.inj read)
      have whole := congrArg List.length (Coordinate.eq_segments_of_intercalate some_part dotless group)
      rw [segments, List.length_append, List.length_cons] at whole
      omega

theorem archiveRelease?_of_similar_names :
    archiveRelease? (storedAt ⟨"/home/clients/data"⟩ "libraries" ⟨"org.libraries-api", "..", "clients.1"⟩) =
      some ⟨"org.libraries-api", "..", "clients.1"⟩ := by
  have layered : (⟨"org.libraries-api", "..", "clients.1"⟩ : Coordinate).Layered :=
    ⟨by decide +kernel, ⟨by decide, by decide, by decide⟩, ⟨by decide, by decide, by decide⟩⟩
  exact (archiveRelease?_storedAt_iff layered ⟨"/home/clients/data"⟩ (by decide)).1.2 (by decide +kernel)

/-- The archive of a release whose group ends with the name of a store is read as none, and that of one whose group has such
a name earlier as another release. -/
theorem archiveRelease?_of_store_in_group :
    (⟨"g.libraries", "a", "1"⟩ : Coordinate).Layered ∧ (⟨"x.clients.g", "a", "1"⟩ : Coordinate).Layered ∧
      storedAt ⟨"data"⟩ "libraries" ⟨"g.libraries", "a", "1"⟩ = ⟨"data/libraries/g/libraries/a/1/a-1.jar"⟩ ∧
      archiveRelease? (storedAt ⟨"data"⟩ "libraries" ⟨"g.libraries", "a", "1"⟩) = none ∧
      archiveRelease? (storedAt ⟨"data"⟩ "libraries" ⟨"x.clients.g", "a", "1"⟩) = some ⟨"g", "a", "1"⟩ :=
  ⟨⟨by decide +kernel, ⟨by decide, by decide, by decide⟩, ⟨by decide, by decide, by decide⟩⟩,
    ⟨by decide +kernel, ⟨by decide, by decide, by decide⟩, ⟨by decide, by decide, by decide⟩⟩,
    by decide +kernel, by decide +kernel, by decide +kernel⟩

end Console
end MigrationMining
