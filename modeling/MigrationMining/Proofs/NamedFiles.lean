import Mathlib.Data.List.Basic
import MigrationMining.Proofs.DownloadReach

/-! Files by their name in a directory: when the way to them is open, and what reading, writing, removing and moving them
do. An archive and the files that it is downloaded to have names of their own in one directory. -/

namespace MigrationMining

namespace Path

theorem exists_div_append (p : Path) (s suffix : String) : ∃ q : Path, p / (s ++ suffix) = q.append suffix := by
  change ∃ q : Path, p.join ⟨s ++ suffix⟩ = q.append suffix
  unfold join
  split
  · exact ⟨⟨s⟩, rfl⟩
  · split
    · exact ⟨⟨p.text ++ s⟩, by rw [append, String.append_assoc]⟩
    · exact ⟨⟨p.text ++ "/" ++ s⟩, by simp [append, String.append_assoc]⟩

theorem isEmpty_div (p : Path) {name : String} (plain : PlainName name) : (p / name).isEmpty = false := by
  change (p.join ⟨name⟩).isEmpty = false
  rw [isEmpty_join, isEmpty_eq_false_iff.2 plain.toList_ne.1, Bool.and_false]

theorem getLast?_splitOn_div (p : Path) {name : String} (plain : PlainName name) :
    (Text.splitOn '/' (p / name).text.toList).getLast? = some name.toList := by
  have own := Text.splitOn_of_notMem plain.slashFree
  change (Text.splitOn '/' (p.join ⟨name⟩).text.toList).getLast? = _
  cases empty : p.isEmpty with
  | true => rw [join_eq_of_isEmpty empty, own, List.getLast?_singleton]
  | false =>
    obtain ⟨front, -, chars⟩ := exists_text_join plain.not_isAbsolute empty
    rw [chars, Text.splitOn_append_cons, own, List.getLast?_concat]

theorem meansDirectory_div (p : Path) {name : String} (plain : PlainName name) :
    FileStore.meansDirectory (p / name) = false := by
  have last := getLast?_splitOn_div p plain
  unfold FileStore.meansDirectory
  split
  · next pieces =>
    rw [← List.head?_reverse, pieces, List.head?_cons, Option.some.injEq] at last
    subst last
    simp [plain.toList_ne]
  · rfl

/-- The directory of a named file is the one that it is named in, but for components that this adds to it. -/
theorem components_directoryOf?_div (p : Path) {name : String} (plain : PlainName name) :
    ((FileStore.directoryOf? (p / name)).getD ⟨""⟩).components <+: p.components := by
  cases found : FileStore.directoryOf? (p / name) with
  | none => exact List.nil_prefix
  | some dir =>
    obtain ⟨nonempty, rest, chars⟩ := exists_of_directoryOf? found
    have absolute : (p / name).isAbsolute = dir.isAbsolute := by
      rw [isAbsolute, isAbsolute, chars, head?_append_of_ne_nil (isEmpty_eq_false_iff.1 nonempty)]
    have whole := components_of_slash absolute (.inl rfl) chars
    have last := getLast?_splitOn_div p plain
    rw [chars, Text.splitOn_append_cons, List.getLast?_append_of_ne_nil _ (Text.splitOn_ne_nil '/' rest)] at last
    obtain ⟨pieces, cut⟩ := List.getLast?_eq_some_iff.1 last
    rw [cut, List.filterMap_append, List.filterMap_cons_some plain.ordinary, List.filterMap_nil, ← List.append_assoc,
      components_div p plain] at whole
    exact ⟨_, (List.append_left_injective _ whole).symm⟩

theorem place_div_ne (p : Path) {name other : String} (plain : PlainName name) (plain' : PlainName other)
    (different : name ≠ other) : (p / name).place ≠ (p / other).place := by
  rw [place_div p plain, place_div p plain']
  simpa using different

end Path

namespace FileStore
open MigrationMining.Path

variable {fs fs' : FileStore} {d : Path} {name : String} {q : Place} {content : ByteArray}

def Opens (fs : FileStore) (d : Path) : Prop :=
  d.components.foldlM fs.step [] = .ok d.place ∧ fs.node? d.place = some .directory

theorem Opens.of_keepsDirectories (keeps : KeepsDirectories fs fs') (opens : fs.Opens d) : fs'.Opens d :=
  ⟨keeps.foldlM_step opens.1, keeps _ opens.2⟩

theorem step_normal_eq_ok_iff {place : Place} : fs.step place (.normal name) = .ok q ↔
    fs.node? place = some .directory ∧ q = place ++ [name] := by
  rw [← requireDirectory_eq_ok_iff, step]
  cases fs.requireDirectory place with
  | error e => simp [Except.map]
  | ok u => simp [Except.map, eq_comm]

theorem locate_eq_foldlM {p : Path} (nonempty : p.isEmpty = false) :
    fs.locate p = p.components.foldlM fs.step [] := by
  rw [locate, nonempty, if_neg Bool.false_ne_true]

theorem locate_div (plain : PlainName name) : fs.locate (d / name) = .ok q ↔ fs.Opens d ∧ q = (d / name).place := by
  rw [locate_eq_foldlM (isEmpty_div d plain), components_div d plain, List.foldlM_append, bind_eq_ok_iff,
    place_div d plain]
  simp only [List.foldlM_cons, List.foldlM_nil, bind_pure, step_normal_eq_ok_iff, Opens]
  constructor
  · rintro ⟨place, followed, directory, rfl⟩
    obtain rfl : place = d.place := foldl_of_foldlM_step followed
    exact ⟨⟨followed, directory⟩, rfl⟩
  · rintro ⟨⟨followed, directory⟩, rfl⟩
    exact ⟨d.place, followed, directory, rfl⟩

theorem stat_div (plain : PlainName name) {node : FileNode} :
    fs.stat (d / name) = .ok node ↔ fs.Opens d ∧ fs.node? (d / name).place = some node := by
  rw [stat, bind_eq_ok_iff]
  constructor
  · rintro ⟨place, located, there⟩
    obtain ⟨opens, rfl⟩ := (locate_div plain).1 located
    refine ⟨opens, ?_⟩
    split at there
    · cases there
    · next held =>
      rw [meansDirectory_div d plain, if_neg Bool.false_ne_true] at there
      rw [held, Except.ok.inj there]
    · next held => rw [held, Except.ok.inj there]
  · rintro ⟨opens, held⟩
    refine ⟨_, (locate_div plain).2 ⟨opens, rfl⟩, ?_⟩
    rw [held, meansDirectory_div d plain]
    cases node <;> rfl

theorem exists?_div (plain : PlainName name) :
    fs.exists? (d / name) ↔ fs.Opens d ∧ ∃ node, fs.node? (d / name).place = some node := by
  have there : fs.exists? (d / name) ↔ ∃ node, fs.stat (d / name) = .ok node := by
    unfold exists?
    cases fs.stat (d / name) <;> simp [Except.toBool]
  simp only [there, stat_div plain, exists_and_left]

theorem exists?_of_readBytes {p : Path} (read : fs.readBytes p = .ok content) : fs.exists? p := by
  unfold readBytes at read
  split at read
  · next there =>
    rw [exists?, there]
    rfl
  · cases read
  · cases read

theorem isFile_div (plain : PlainName name) :
    fs.isFile (d / name) ↔ fs.Opens d ∧ ∃ content, fs.contentAt? (d / name).place = some content := by
  have there : fs.isFile (d / name) ↔ ∃ content modified, fs.stat (d / name) = .ok (.file content modified) := by
    unfold isFile
    split <;> simp_all
  simp only [there, stat_div plain, exists_and_left, contentAt?_eq_some]

theorem isFile_div_eq_false_iff (plain : PlainName name) :
    fs.isFile (d / name) = false ↔ (fs.Opens d → fs.contentAt? (d / name).place = none) := by
  rw [Bool.eq_false_iff, ne_eq, isFile_div plain, not_and, ← Option.isSome_iff_exists, Option.not_isSome_iff_eq_none]

theorem readBytes_div (plain : PlainName name) :
    fs.readBytes (d / name) = .ok content ↔ fs.Opens d ∧ fs.contentAt? (d / name).place = some content := by
  have there : fs.readBytes (d / name) = .ok content ↔ ∃ modified, fs.stat (d / name) = .ok (.file content modified) := by
    unfold readBytes
    split <;> simp_all
  simp only [there, stat_div plain, exists_and_left, contentAt?_eq_some]

theorem writeBytes_div (plain : PlainName name) : fs.writeBytes (d / name) content = .ok fs' ↔
    fs.Opens d ∧ fs.node? (d / name).place ≠ some .directory ∧
      fs' = fs.put (d / name).place (.file content fs.clock) := by
  constructor
  · intro written
    obtain ⟨place, located, free, -, rfl⟩ := eq_put_of_writeBytes written
    obtain ⟨opens, rfl⟩ := (locate_div plain).1 located
    exact ⟨opens, free, rfl⟩
  · rintro ⟨opens, free, rfl⟩
    have above : fs.requireDirectory (d / name).place.dropLast = .ok () := by
      rw [place_div d plain, List.dropLast_concat]
      exact requireDirectory_eq_ok_iff.2 opens.2
    refine bind_eq_ok_iff.2 ⟨_, (locate_div plain).2 ⟨opens, rfl⟩, ?_⟩
    rw [meansDirectory_div d plain, above]
    split
    · next held => exact absurd held free
    · rfl

theorem exists_writeBytes_div (plain : PlainName name) (content : ByteArray) :
    (∃ fs', fs.writeBytes (d / name) content = .ok fs') ↔
      fs.Opens d ∧ fs.node? (d / name).place ≠ some .directory := by
  simp only [writeBytes_div plain, exists_and_left, exists_eq, and_true]

theorem remove_div (plain : PlainName name) : fs.remove (d / name) = .ok fs' ↔
    fs.isFile (d / name) ∧ fs' = fs.erase (d / name).place := by
  simp only [isFile_div plain, contentAt?_eq_some]
  constructor
  · intro removed
    obtain ⟨node, there, removed⟩ := bind_eq_ok_iff.1 removed
    obtain ⟨opens, held⟩ := (stat_div plain).1 there
    cases node with
    | directory => cases removed
    | file content modified =>
      obtain ⟨place, located, same⟩ := bind_eq_ok_iff.1 removed
      obtain ⟨-, rfl⟩ := (locate_div plain).1 located
      exact ⟨⟨opens, content, modified, held⟩, (Except.ok.inj same).symm⟩
  · rintro ⟨⟨opens, content, modified, held⟩, rfl⟩
    refine bind_eq_ok_iff.2 ⟨_, (stat_div plain).2 ⟨opens, held⟩, ?_⟩
    exact bind_eq_ok_iff.2 ⟨_, (locate_div plain).2 ⟨opens, rfl⟩, rfl⟩

theorem rename_div {other : String} (plain : PlainName name) (plain' : PlainName other) :
    fs.rename (d / name) (d / other) = .ok fs' ↔ fs.node? (d / other).place ≠ some .directory ∧ fs.Opens d ∧
      ∃ content modified, fs.node? (d / name).place = some (.file content modified) ∧
        fs' = (fs.erase (d / name).place).put (d / other).place (.file content modified) := by
  constructor
  · intro renamed
    obtain ⟨node, there, renamed⟩ := bind_eq_ok_iff.1 renamed
    obtain ⟨opens, held⟩ := (stat_div plain).1 there
    cases node with
    | directory => cases renamed
    | file content modified =>
      obtain ⟨after, target_located, renamed⟩ := bind_eq_ok_iff.1 renamed
      obtain ⟨-, rfl⟩ := (locate_div plain').1 target_located
      obtain ⟨_, -, renamed⟩ := bind_eq_ok_iff.1 renamed
      split at renamed
      · cases renamed
      · next free =>
        obtain ⟨before, located, same⟩ := bind_eq_ok_iff.1 renamed
        obtain ⟨-, rfl⟩ := (locate_div plain).1 located
        exact ⟨free, opens, content, modified, held, (Except.ok.inj same).symm⟩
  · rintro ⟨free, opens, content, modified, held, rfl⟩
    have above : fs.requireDirectory (d / other).place.dropLast = .ok () := by
      rw [place_div d plain', List.dropLast_concat]
      exact requireDirectory_eq_ok_iff.2 opens.2
    refine bind_eq_ok_iff.2 ⟨_, (stat_div plain).2 ⟨opens, held⟩, ?_⟩
    refine bind_eq_ok_iff.2 ⟨_, (locate_div plain').2 ⟨opens, rfl⟩, ?_⟩
    refine bind_eq_ok_iff.2 ⟨(), above, ?_⟩
    split
    · next there => exact absurd there free
    · exact bind_eq_ok_iff.2 ⟨_, (locate_div plain).2 ⟨opens, rfl⟩, rfl⟩

end FileStore

end MigrationMining
