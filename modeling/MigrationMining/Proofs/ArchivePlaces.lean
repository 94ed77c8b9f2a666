import MigrationMining.Proofs.CoordinateText
import MigrationMining.Proofs.PathComponents
import MigrationMining.Repository.Layout

/-! Which releases have the path of their archive below the root that the archive is stored under: exactly those of which no
field replaces what stands before it, and none goes up. -/

namespace MigrationMining

/-- A path whose components begin with those of a root and do not go up after them. -/
def Path.Inside (root p : Path) : Prop := ∃ rest, p.components = root.components ++ rest ∧ .parent ∉ rest

/-- A path that leads from a root through names only. -/
def Path.Under (root p : Path) : Prop :=
  ∃ names : List String, p.components = root.components ++ names.map .normal ∧ ∀ name ∈ names, PlainName name

namespace Coordinate

/-- A field of the release begins as an absolute path does, where a dot of the group stands for a slash. -/
def Rooted (c : Coordinate) : Prop :=
  (c.group.toList.head? = some '.' ∨ c.group.toList.head? = some '/') ∨ c.artifact.toList.head? = some '/' ∨
    c.version.toList.head? = some '/'

/-- A field of the release has the piece `..` between slashes. A group has none, since its dots are slashes. -/
def Climbs (c : Coordinate) : Prop :=
  ['.', '.'] ∈ Text.splitOn '/' c.artifact.toList ∨ ['.', '.'] ∈ Text.splitOn '/' c.version.toList

instance (c : Coordinate) : Decidable c.Rooted := inferInstanceAs (Decidable (_ ∨ _))

instance (c : Coordinate) : Decidable c.Climbs := inferInstanceAs (Decidable (_ ∨ _))

end Coordinate

namespace Layout

variable {c : Coordinate} {extension : String}

theorem toList_groupPath (group : String) :
    (groupPath group).toList = group.toList.map fun c => if c = '.' then '/' else c := by
  rw [groupPath, String.toList_ofList]

theorem dot_notMem_groupPath (group : String) : '.' ∉ (groupPath group).toList := by
  rw [toList_groupPath, List.mem_map]
  rintro ⟨c, -, same⟩
  split at same
  · cases same
  · contradiction

theorem isAbsolute_groupPath (group : String) :
    Path.isAbsolute ⟨groupPath group⟩ ↔ group.toList.head? = some '.' ∨ group.toList.head? = some '/' := by
  rw [Path.isAbsolute, decide_eq_true_iff, toList_groupPath, List.head?_map]
  cases group.toList.head? with
  | none => simp
  | some c =>
    by_cases dot : c = '.' <;> simp [dot]

theorem isAbsolute_fileName (c : Coordinate) (extension : String) :
    Path.isAbsolute ⟨fileName c extension⟩ = Path.isAbsolute ⟨c.artifact⟩ := by
  have dash : "-".toList = ['-'] := rfl
  cases chars : c.artifact.toList <;> simp [Path.isAbsolute, fileName, chars, dash]

theorem rooted_iff : c.Rooted ↔
    Path.isAbsolute ⟨groupPath c.group⟩ ∨ Path.isAbsolute ⟨c.artifact⟩ ∨ Path.isAbsolute ⟨c.version⟩ := by
  rw [isAbsolute_groupPath, Path.isAbsolute, Path.isAbsolute, decide_eq_true_iff, decide_eq_true_iff]
  rfl

theorem parent_notMem_groupPath (group : String) : .parent ∉ Path.namedIn (groupPath group) := by
  rw [Path.parent_mem_namedIn]
  intro mem
  exact dot_notMem_groupPath group (Text.mem_of_mem_splitOn mem List.mem_cons_self)

theorem parent_mem_of_extension {text extension : List Char} (slashFree : '/' ∉ extension)
    (solid : ∃ ch ∈ extension, ch ≠ '.') (up : ['.', '.'] ∈ Text.splitOn '/' (text ++ '.' :: extension)) :
    ['.', '.'] ∈ Text.splitOn '/' text := by
  obtain ⟨ch, mem, solid⟩ := solid
  have last : Text.splitOn '/' ('.' :: extension) = ['.' :: extension] :=
    Text.splitOn_of_notMem (by simpa using slashFree)
  have level : ¬ '.' :: extension <:+ ['.', '.'] := by
    intro ends
    have dot : ch ∈ ['.', '.'] := ends.mem (List.mem_cons_of_mem _ mem)
    exact solid (by simpa using dot)
  rcases Text.mem_splitOn_append up with before | whole | ⟨first, head, ends⟩
  · exact before
  · rw [last, List.mem_singleton] at whole
    exact absurd (whole ▸ List.suffix_refl _) level
  · rw [last] at head
    obtain rfl := Option.some.inj head
    exact absurd ends level

theorem climbs_of_fileName (slashFree : '/' ∉ extension.toList) (solid : ∃ ch ∈ extension.toList, ch ≠ '.')
    (up : .parent ∈ Path.namedIn (fileName c extension)) : c.Climbs := by
  have chars : (fileName c extension).toList =
      c.artifact.toList ++ '-' :: (c.version.toList ++ '.' :: extension.toList) := by
    have dash : "-".toList = ['-'] := rfl
    have dot : ".".toList = ['.'] := rfl
    simp [fileName, dash, dot]
  rw [Path.parent_mem_namedIn, chars] at up
  obtain ⟨piece, pieces, later, cut⟩ := Text.exists_splitOn_cons (show '-' ≠ '/' by decide)
    (c.version.toList ++ '.' :: extension.toList)
  rcases Text.mem_splitOn_append up with artifact | rest | ⟨first, head, ends⟩
  · exact .inl artifact
  · refine .inr (parent_mem_of_extension slashFree solid ?_)
    rw [cut] at rest
    rw [later]
    exact List.mem_cons_of_mem _ (List.mem_of_ne_of_mem (by simp) rest)
  · rw [cut] at head
    obtain rfl := Option.some.inj head
    have dash : '-' ∈ ['.', '.'] := ends.mem List.mem_cons_self
    simp at dash

theorem archivePath_eq (root : Path) (c : Coordinate) (extension : String) : archivePath root c extension =
    (((root.join ⟨groupPath c.group⟩).join ⟨c.artifact⟩).join ⟨c.version⟩).join ⟨fileName c extension⟩ := rfl

theorem isAbsolute_archivePath (root : Path) (c : Coordinate) (extension : String) :
    (archivePath root c extension).isAbsolute ↔ root.isAbsolute ∨ c.Rooted := by
  rw [archivePath_eq, rooted_iff]
  simp only [Path.isAbsolute_join, isAbsolute_fileName, Bool.or_eq_true]
  grind

theorem archivePath_of_rooted (rooted : c.Rooted) (root : Path) (extension : String) :
    archivePath root c extension = archivePath ⟨""⟩ c extension := by
  rw [archivePath_eq, archivePath_eq]
  rcases rooted_iff.1 rooted with absolute | absolute | absolute
  · simp only [Path.join_eq_of_absolute absolute]
  · simp only [Path.join_eq_of_absolute absolute]
  · simp only [Path.join_eq_of_absolute absolute]

def namedBy (c : Coordinate) (extension : String) : List Path.Component :=
  [groupPath c.group, c.artifact, c.version, fileName c extension].flatMap Path.namedIn

theorem components_archivePath (named : c.group ≠ "") (relative : ¬ c.Rooted) (root : Path) (extension : String) :
    (archivePath root c extension).components = root.components ++ namedBy c extension := by
  rw [rooted_iff] at relative
  simp only [not_or, Bool.not_eq_true] at relative
  obtain ⟨group, artifact, version⟩ := relative
  have file : Path.isAbsolute ⟨fileName c extension⟩ = false := by rw [isAbsolute_fileName, artifact]
  have dotless : (Text.splitOn '/' (groupPath c.group).toList).head? ≠ some ['.'] := by
    intro first
    exact dot_notMem_groupPath c.group (Text.mem_of_mem_splitOn (List.mem_of_mem_head? first) List.mem_cons_self)
  have nonempty : (root.join ⟨groupPath c.group⟩).isEmpty = false := by
    have own : Path.isEmpty ⟨groupPath c.group⟩ = false := by
      simpa [Path.isEmpty_eq_false_iff, toList_groupPath] using named
    rw [Path.isEmpty_join, own, Bool.and_false]
  rw [archivePath_eq, Path.components_join file, Path.components_join version, Path.components_join artifact nonempty,
    Path.components_join_of_named root group dotless, namedBy]
  · simp
  · rw [Path.isEmpty_join, nonempty, Bool.false_and]
  · rw [Path.isEmpty_join, Path.isEmpty_join, nonempty, Bool.false_and, Bool.false_and]

theorem parent_mem_namedBy (slashFree : '/' ∉ extension.toList) (solid : ∃ ch ∈ extension.toList, ch ≠ '.') :
    .parent ∈ namedBy c extension ↔ c.Climbs := by
  simp only [namedBy, List.mem_flatMap, List.mem_cons, List.not_mem_nil, or_false]
  constructor
  · rintro ⟨text, rfl | rfl | rfl | rfl, up⟩
    · exact absurd up (parent_notMem_groupPath c.group)
    · exact .inl (Path.parent_mem_namedIn.1 up)
    · exact .inr (Path.parent_mem_namedIn.1 up)
    · exact climbs_of_fileName slashFree solid up
  · rintro (artifact | version)
    · exact ⟨c.artifact, .inr (.inl rfl), Path.parent_mem_namedIn.2 artifact⟩
    · exact ⟨c.version, .inr (.inr (.inl rfl)), Path.parent_mem_namedIn.2 version⟩

/-- The path of an archive is inside its root if and only if no field goes up, or it is there by itself. -/
theorem inside_archivePath_iff (named : c.group ≠ "") (root : Path) : root.Inside (archivePath root c "jar") ↔
    ¬ c.Rooted ∧ ¬ c.Climbs ∨ c.Rooted ∧ root.Inside (archivePath ⟨""⟩ c "jar") := by
  by_cases rooted : c.Rooted
  · rw [archivePath_of_rooted rooted]
    simp [rooted]
  · have inside : root.Inside (archivePath root c "jar") ↔ .parent ∉ namedBy c "jar" := by
      rw [Path.Inside, components_archivePath named rooted]
      simp [List.append_cancel_left_eq]
    rw [inside, parent_mem_namedBy (by decide) ⟨'j', by decide⟩]
    simp [rooted]

theorem inside_archivePath_iff_of_relative (named : c.group ≠ "") {root : Path} (relative : root.isAbsolute = false)
    (nonempty : root.isEmpty = false) : root.Inside (archivePath root c "jar") ↔ ¬ c.Rooted ∧ ¬ c.Climbs := by
  rw [inside_archivePath_iff named, or_iff_left_iff_imp]
  rintro ⟨rooted, rest, inside, -⟩
  obtain ⟨after, first⟩ := Path.components_eq_cons_of_absolute ((isAbsolute_archivePath ⟨""⟩ c "jar").2 (.inr rooted))
  obtain ⟨d, ds, own⟩ := List.exists_cons_of_ne_nil (Path.components_ne_nil relative nonempty)
  rw [first, own, List.cons_append] at inside
  obtain ⟨rfl, -⟩ := List.cons.inj inside
  have absolute := Path.root_mem_components_iff.1 (own ▸ List.mem_cons_self)
  rw [relative] at absolute
  cases absolute

/-- What the path of an archive adds to its root are names, unless a field goes up or replaces the root. -/
theorem under_archivePath (named : c.group ≠ "") (relative : ¬ c.Rooted) (level : ¬ c.Climbs)
    (slashFree : '/' ∉ extension.toList) (solid : ∃ ch ∈ extension.toList, ch ≠ '.') (root : Path) :
    root.Under (archivePath root c extension) := by
  have plain : ∀ component ∈ namedBy c extension, ∃ name, component = .normal name ∧ Path.PlainName name := by
    intro component mem
    obtain ⟨text, -, here⟩ := List.mem_flatMap.1 mem
    rcases Path.eq_parent_or_normal_of_mem here with rfl | plain
    · exact absurd ((parent_mem_namedBy slashFree solid).1 mem) level
    · exact plain
  obtain ⟨names, whole, plain⟩ := Path.exists_map_normal plain
  exact ⟨names, whole ▸ components_archivePath named relative root extension, plain⟩

end Layout
end MigrationMining
