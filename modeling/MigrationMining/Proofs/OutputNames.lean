import MigrationMining.Pipeline.Migration
import MigrationMining.Proofs.CoordinateText
import MigrationMining.Proofs.PathComponents
import MigrationMining.Proofs.SavedFiles

/-! The names of the directories of libraries and of the files of client pairs: for which libraries and pairs they are
the same, and that files with different names do not get into each other's way. -/

namespace MigrationMining

namespace Project

def directoryName (p : Project) : String := p.group ++ "_" ++ p.artifact

/-- An underscore of the one artifact is where the group of the other ends. -/
def Shifted (p q : Project) : Prop := ∃ x, q.group = p.group ++ "_" ++ x ∧ p.artifact = x ++ "_" ++ q.artifact

theorem Shifted.directoryName_eq {p q : Project} (h : p.Shifted q) : p.directoryName = q.directoryName := by
  obtain ⟨x, group, artifact⟩ := h
  rw [directoryName, directoryName, group, artifact]
  simp only [String.append_assoc]

theorem shifted_of_append {p q : Project} {x : List Char} (group : q.group.toList = p.group.toList ++ '_' :: x)
    (artifact : p.artifact.toList = x ++ '_' :: q.artifact.toList) : p.Shifted q := by
  have underscore : "_".toList = ['_'] := rfl
  refine ⟨String.ofList x, String.toList_inj.1 ?_, String.toList_inj.1 ?_⟩
  · simp [group, underscore]
  · simp [artifact, underscore]

/-- Two libraries share their directory name if and only if they are the same or one is shifted against the other. -/
theorem directoryName_eq_iff {p q : Project} :
    p.directoryName = q.directoryName ↔ p = q ∨ p.Shifted q ∨ q.Shifted p := by
  constructor
  · intro same
    have chars : p.group.toList ++ '_' :: p.artifact.toList = q.group.toList ++ '_' :: q.artifact.toList := by
      simpa [directoryName] using congrArg String.toList same
    rcases List.append_eq_append_iff.1 chars with ⟨x, group, rest⟩ | ⟨x, group, rest⟩
    · cases x with
      | nil =>
        left
        rw [List.append_nil] at group
        obtain ⟨-, artifact⟩ := List.cons.inj rest
        exact Project.mk.injEq .. ▸ ⟨String.toList_inj.1 group.symm, String.toList_inj.1 artifact⟩
      | cons c x =>
        obtain ⟨rfl, artifact⟩ := List.cons.inj rest
        exact .inr (.inl (shifted_of_append group artifact))
    · cases x with
      | nil =>
        left
        rw [List.append_nil] at group
        obtain ⟨-, artifact⟩ := List.cons.inj rest
        exact Project.mk.injEq .. ▸ ⟨String.toList_inj.1 group, String.toList_inj.1 artifact.symm⟩
      | cons c x =>
        obtain ⟨rfl, artifact⟩ := List.cons.inj rest
        exact .inr (.inr (shifted_of_append group artifact))
  · rintro (rfl | shifted | shifted)
    · rfl
    · exact shifted.directoryName_eq
    · exact shifted.directoryName_eq.symm

end Project

theorem Path.div_inj {p : Path} {name name' : String} (relative : isAbsolute ⟨name⟩ = false)
    (relative' : isAbsolute ⟨name'⟩ = false) : p / name = p / name' ↔ name = name' := by
  have joined {name : String} (relative : isAbsolute ⟨name⟩ = false) : p / name =
      ⟨(if p.isEmpty then "" else if p.text.toList.getLast? = some '/' then p.text else p.text ++ "/") ++ name⟩ := by
    change join p ⟨name⟩ = _
    rw [join, relative, Bool.false_or]
    split
    · rw [String.empty_append]
    · split <;> rfl
  rw [joined relative, joined relative', Path.mk.injEq]
  exact ⟨fun same => by simpa using same, congrArg _⟩

/-- Two libraries whose groups do not begin with a slash share their directory if and only if they are the same or one is
shifted against the other. -/
theorem Analysis.libraryDirectory_eq_iff {root : Path} {p q : Project}
    (relative : p.group.toList.head? ≠ some '/' ∧ q.group.toList.head? ≠ some '/') :
    libraryDirectory root p = libraryDirectory root q ↔ p = q ∨ p.Shifted q ∨ q.Shifted p := by
  have named {p : Project} (relative : p.group.toList.head? ≠ some '/') : Path.isAbsolute ⟨p.directoryName⟩ = false := by
    refine decide_eq_false fun head => ?_
    cases chars : p.group.toList with
    | nil => simp [Project.directoryName, chars] at head
    | cons c cs =>
      simp only [Project.directoryName, String.toList_append, chars, List.cons_append, List.head?_cons] at head
      exact relative (by rw [chars, List.head?_cons, head])
  rw [← Project.directoryName_eq_iff]
  exact Path.div_inj (named relative.1) (named relative.2)

namespace Coordinate

def pieces (c : Coordinate) : List (List Char) :=
  Text.splitOn '_' c.group.toList ++ Text.splitOn '_' c.artifact.toList ++ Text.splitOn '_' c.version.toList

theorem toList_fileStem {c : Coordinate} (readable : c.Readable) :
    c.fileStem.toList = c.group.toList ++ '_' :: (c.artifact.toList ++ '_' :: c.version.toList) := by
  have kept {field : List Char} (h : ':' ∉ field) : field.map (fun ch => if ch = ':' then '_' else ch) = field := by
    refine (List.map_congr_left fun ch mem => ?_).trans (List.map_id field)
    refine if_neg ?_
    rintro rfl
    exact h mem
  obtain ⟨group, artifact, version⟩ := readable.separate
  simp [fileStem, toList_text, Text.joinWith, kept group, kept artifact, kept version]

theorem splitOn_fileStem {c : Coordinate} (readable : c.Readable) :
    Text.splitOn '_' c.fileStem.toList = c.pieces := by
  rw [toList_fileStem readable, Text.splitOn_append_cons, Text.splitOn_append_cons, pieces, List.append_assoc]

end Coordinate

namespace DatasetFiles

/-- The pieces of the fields of both releases, with an empty piece between the releases. -/
def pairPieces (pair : Coordinate × Coordinate) : List (List Char) := pair.1.pieces ++ [] :: pair.2.pieces

theorem pairName_eq_iff {p q : Coordinate × Coordinate} (first : p.1.Readable ∧ p.2.Readable)
    (second : q.1.Readable ∧ q.2.Readable) :
    pairName p.1 p.2 = pairName q.1 q.2 ↔ pairPieces p = pairPieces q := by
  have cut {p : Coordinate × Coordinate} (readable : p.1.Readable ∧ p.2.Readable) :
      Text.splitOn '_' (p.1.fileStem.toList ++ '_' :: '_' :: p.2.fileStem.toList) = pairPieces p := by
    rw [Text.splitOn_append_cons, Coordinate.splitOn_fileStem readable.1, ← List.nil_append ('_' :: _),
      Text.splitOn_append_cons, Coordinate.splitOn_fileStem readable.2]
    rfl
  have chars (p : Coordinate × Coordinate) : (pairName p.1 p.2).toList =
      (p.1.fileStem.toList ++ '_' :: '_' :: p.2.fileStem.toList) ++ ".json".toList := by
    simp [pairName]
  rw [← cut first, ← cut second, Text.splitOn_inj, ← String.toList_inj, chars, chars, List.append_left_inj]

end DatasetFiles

namespace FileStore

variable {fs : FileStore} {p : Path} {name name' file file' : String} {place : Place}

def follow (fs : FileStore) (p : Path) : Except FileFailure Place := p.components.foldlM fs.step []

theorem follow_of_locate (located : fs.locate p = .ok place) : fs.follow p = .ok place := by
  unfold locate at located
  split at located
  · cases located
  · exact located

theorem follow_div (plain : Path.PlainName name) (h : fs.follow (p / name) = .ok place) :
    ∃ directory, fs.follow p = .ok directory ∧ place = directory ++ [name] := by
  rw [follow, Path.components_div p plain, List.foldlM_append] at h
  obtain ⟨directory, here, h⟩ := bind_eq_ok_iff.1 h
  refine ⟨directory, here, ?_⟩
  obtain ⟨next, stepped, last⟩ := bind_eq_ok_iff.1 h
  obtain rfl := Except.ok.inj last
  exact next_of_step stepped

end FileStore

namespace Path

variable {p : Path} {name name' file file' : String}

theorem apart_of_name_ne (p : Path) (plain : PlainName name) (plain' : PlainName name') (other : name ≠ name') :
    Apart (p / name) (p / name') := by
  intro fs place place' located located'
  obtain ⟨d, first, rfl⟩ := FileStore.follow_div plain (FileStore.follow_of_locate located)
  obtain ⟨d', second, rfl⟩ := FileStore.follow_div plain' (FileStore.follow_of_locate located')
  intro same
  exact other (by simpa using (List.append_inj' same rfl).2)

theorem apart_of_directory_ne (p : Path) (plain : PlainName name) (plain' : PlainName name') (other : name ≠ name')
    (inside : PlainName file) (inside' : PlainName file') : Apart (p / name / file) (p / name' / file') := by
  intro fs place place' located located'
  obtain ⟨d, first, rfl⟩ := FileStore.follow_div inside (FileStore.follow_of_locate located)
  obtain ⟨d', second, rfl⟩ := FileStore.follow_div inside' (FileStore.follow_of_locate located')
  obtain ⟨c, -, rfl⟩ := FileStore.follow_div plain first
  obtain ⟨c', -, rfl⟩ := FileStore.follow_div plain' second
  intro same
  have directories := (List.append_inj' same rfl).1
  exact other (by simpa using (List.append_inj' directories rfl).2)

end Path
end MigrationMining
