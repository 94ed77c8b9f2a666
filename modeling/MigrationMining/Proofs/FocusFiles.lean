import MigrationMining.CodeModel.Focus
import MigrationMining.Proofs.CacheTransparency
import MigrationMining.Proofs.NamedFiles
import MigrationMining.Proofs.PathOrder

/-! Focus files: both hold what was written to them, and keep it while models are extracted and while the focus files of
other archives of the same tree are written. -/

namespace MigrationMining

namespace Path

theorem apart_of_place_ne {p q : Path} (other : p.place ≠ q.place) : p.Apart q := by
  intro fs place place' located located' same
  rw [FileStore.place_of_locate located, FileStore.place_of_locate located'] at same
  exact other same

variable {s t : String}

theorem apart_append (p q : Path) (ending : IsEnding s) (ending' : IsEnding t)
    (other : s.toList.getLast? ≠ t.toList.getLast?) : (p.append s).Apart (q.append t) := by
  have last (front : String) {s : String} (ending : IsEnding s) : (front ++ s).toList.getLast? = s.toList.getLast? := by
    obtain ⟨c, mem, -⟩ := List.any_eq_true.1 ending.solid
    rw [String.toList_append, List.getLast?_append_of_ne_nil _ (List.ne_nil_of_mem mem)]
  obtain ⟨d, front, named⟩ := p.exists_append_eq_div
  obtain ⟨d', front', named'⟩ := q.exists_append_eq_div
  obtain ⟨whole, plain⟩ := named ending
  obtain ⟨whole', plain'⟩ := named' ending'
  rw [whole, whole']
  refine apart_of_place_ne fun same => other ?_
  rw [place_div d plain, place_div d' plain'] at same
  have names : front ++ s = front' ++ t := by simpa using (List.append_inj' same rfl).2
  rw [← last front ending, names, last front' ending']

theorem apart_append_self (p : Path) (ending : IsEnding s) (ending' : IsEnding t) (other : s ≠ t) :
    (p.append s).Apart (p.append t) := by
  obtain ⟨d, front, named⟩ := p.exists_append_eq_div
  obtain ⟨whole, plain⟩ := named ending
  obtain ⟨whole', plain'⟩ := named ending'
  rw [whole, whole']
  exact apart_of_name_ne d plain plain' (by simpa using other)

end Path

namespace Focus

def endings : List String := [".focus", ".md.focus"]

theorem isEnding_of_mem {s : String} (mem : s ∈ endings) : Path.IsEnding s := by
  simp only [endings, List.mem_cons, List.not_mem_nil, or_false] at mem
  rcases mem with rfl | rfl <;> decide

theorem ending_ne_entry {s : String} (mem : s ∈ endings) :
    s.toList.getLast? ≠ ".json".toList.getLast? ∧ s.toList.getLast? ≠ ".part".toList.getLast? := by
  simp only [endings, List.mem_cons, List.not_mem_nil, or_false] at mem
  rcases mem with rfl | rfl <;> decide

end Focus

namespace Archives
open MigrationMining.Path

variable {fs : FileStore} {root d p q : Path} {name : String}

theorem exists_stem_of_isArchive (plain : PlainName name) (archive : isArchive (d / name)) :
    ∃ stem, name = stem ++ ".jar" := by
  simp only [isArchive, extension?, fileName?_div d plain, Option.bind_some, decide_eq_true_eq] at archive
  unfold splitExtension at archive
  split at archive
  · next ext stem cut =>
    split at archive
    · cases archive
    · have whole : name.toList.reverse = ext ++ '.' :: stem := Text.eq_of_splitOnce cut
      have extension : ext.reverse = "jar".toList := by simpa using congrArg String.toList (Option.some.inj archive)
      refine ⟨.ofList stem.reverse, String.toList_inj.1 ?_⟩
      rw [← List.reverse_reverse name.toList, whole, List.reverse_append, List.reverse_cons, extension]
      simp
  · cases archive

theorem apart_of_mem_find (found : p ∈ find fs root) (found' : q ∈ find fs root) (other : p ≠ q) {s t : String}
    (focus : s ∈ Focus.endings) (focus' : t ∈ Focus.endings) : (p.append s).Apart (q.append t) := by
  have below_root {p q : Path} (found : p ∈ find fs root) (found' : q ∈ find fs root) (other : p ≠ q) :
      ∃ names stem, (∀ name ∈ names, PlainName name) ∧ PlainName (stem ++ ".jar") ∧
        p = below root names / (stem ++ ".jar") := by
    obtain ⟨here, archive⟩ := List.mem_filter.1 ((perm_find fs root).mem_iff.1 found)
    rcases mem_filesBelow here with single | ⟨names, nonempty, plain, rfl⟩
    · have there := List.mem_of_mem_filter ((perm_find fs root).mem_iff.1 found')
      rw [single, List.mem_singleton] at there
      exact absurd there.symm other
    · rcases List.eq_nil_or_concat names with rfl | ⟨names, name, rfl⟩
      · exact absurd rfl nonempty
      · rw [List.concat_eq_append] at plain archive ⊢
        obtain ⟨rest, last⟩ := List.forall_mem_append.1 plain
        have last := last name (by simp)
        rw [below_concat] at archive ⊢
        obtain ⟨stem, rfl⟩ := exists_stem_of_isArchive last archive
        exact ⟨names, stem, rest, last, rfl⟩
  obtain ⟨names, stem, rest, last, rfl⟩ := below_root found found' other
  obtain ⟨names', stem', rest', last', rfl⟩ := below_root found' found (Ne.symm other)
  have ending := Focus.isEnding_of_mem focus
  have ending' := Focus.isEnding_of_mem focus'
  rw [append_div _ last, append_div _ last']
  refine apart_of_place_ne fun same => other ?_
  rw [place_div _ (ending.plainName last.slashFree), place_div _ (ending'.plainName last'.slashFree), place_below root rest,
    place_below root rest', List.append_assoc, List.append_assoc, List.append_cancel_left_eq] at same
  obtain ⟨directories, files⟩ := List.append_inj' same rfl
  -- the one ending is longer than the other, but no archive is named `….md`
  have stems : stem = stem' := by
    have chars := congrArg String.toList (List.singleton_inj.1 files)
    refine String.toList_inj.1 ?_
    simp only [Focus.endings, List.mem_cons, List.not_mem_nil, or_false] at focus focus'
    rcases focus with rfl | rfl <;> rcases focus' with rfl | rfl
    · simpa using chars
    · have ends := congrArg (fun cs => cs.reverse.take 7) chars
      simp at ends
    · have ends := congrArg (fun cs => cs.reverse.take 7) chars
      simp at ends
    · simpa using chars
  rw [directories, stems]

end Archives

def Backend.SparesFocus (b : Backend) : Prop :=
  ∀ s ∈ Focus.endings, ∀ (archive p : Path) (fs : FileStore) (text : String),
    fs.readText (p.append s) = .ok text → (b.extract archive fs).2.readText (p.append s) = .ok text

theorem Backend.sparesFocus_facts : Backend.facts.SparesFocus := fun _ _ _ _ _ _ held => held

namespace Extractor

variable {x : Extractor} {c : CacheCall} {p entry : Path} {fs : FileStore} {text s : String}

def Beside (x : Extractor) (p : Path) : Prop :=
  ∀ (i : SnapshotIdentity) entry, x.entry? i.key = some entry → p.Apart entry ∧ p.Apart (entry.append ".part")

theorem beside_append (x : Extractor) (archive : Path) (focus : s ∈ Focus.endings) : x.Beside (archive.append s) := by
  intro i entry kept
  obtain ⟨directory, -, rfl⟩ := entry?_eq_some kept
  obtain ⟨q, whole⟩ := Path.exists_div_append directory i.key ".json"
  obtain ⟨other, other'⟩ := Focus.ending_ne_entry focus
  have ending := Focus.isEnding_of_mem focus
  rw [whole]
  exact ⟨Path.apart_append archive q ending (by decide) other, Path.apart_append archive _ ending (by decide) other'⟩

theorem readText_of_attempt_remove (apart : p.Apart entry) (held : fs.readText p = .ok text) :
    (attempt fs (·.remove entry)).readText p = .ok text := by
  unfold attempt
  split
  · next removed => exact FileStore.readText_of_remove apart removed held
  · exact held

theorem readText_of_writeEntry (beside : p.Apart entry ∧ p.Apart (entry.append ".part")) (m : CodeModel)
    (held : fs.readText p = .ok text) : (writeEntry fs entry m).readText p = .ok text := by
  simp only [writeEntry]
  split
  · next written saved =>
    have kept := FileStore.readText_of_save_apart beside.2 saved held
    unfold attempt
    split
    · next renamed => exact FileStore.readText_of_rename beside.2 beside.1 renamed kept
    · exact kept
  · next interrupted => exact (FileStore.extends_of_interrupted_save interrupted).readText held

theorem Ends.readText {r : Except ExtractFailure CodeModel} {after : ModelStore} (way : x.Ends c r after)
    (beside : x.Beside p)
    (spared : ∀ fs, fs.readText p = .ok text → (x.backend.extract c.snapshot.path fs).2.readText p = .ok text)
    (held : c.store.files.readText p = .ok text) : after.files.readText p = .ok text := by
  have beside {entry : Path} (kept : x.entry? c.key = some entry) := beside c.identity entry (c.key_identity ▸ kept)
  have presented : (x.presented c).readText p = .ok text := by
    unfold presented
    split
    · next entry unreadable =>
      have kept : x.entry? c.key = some entry := by
        unfold unreadable? at unreadable
        split at unreadable
        · cases unreadable
        · exact (Option.filter_eq_some_iff.1 unreadable).1
      exact readText_of_attempt_remove (beside kept).1 held
    · exact held
  have asked : (x.asked c).2.readText p = .ok text := spared _ presented
  cases way with
  | memory => exact held
  | disk => exact held
  | failed => exact asked
  | @extracted m =>
    change (x.written c.key m (x.asked c).2).readText p = .ok text
    unfold written
    split
    · next entry kept => exact readText_of_writeEntry (beside kept) m asked
    · exact asked

end Extractor

namespace Focus

variable {fs fs' : FileStore} {archive : Path} {g : CallGraph} {threshold : Nat} {files : FocusFiles}

/-- Both focus files of an archive can be read, and hold the calls and the callers of interest of its graph. -/
structure Written (fs : FileStore) (archive : Path) (g : CallGraph) (threshold : Nat) : Prop where
  calls : fs.readText (archive.append ".focus") = .ok (callText g threshold)
  markdown : fs.readText (archive.append ".md.focus") = .ok (markdownText g threshold)

def callerLines (g : CallGraph) (threshold : Nat) : Nat := (Text.lines (markdownText g threshold).toList).length

theorem eq_of_write (written : write fs archive g threshold = (.ok files, fs')) :
    files.callers = callerLines g threshold ∧ ∃ between,
      fs.writeBytes (archive.append ".focus") (callText g threshold).toUTF8 = .ok between ∧
      between.writeBytes (archive.append ".md.focus") (markdownText g threshold).toUTF8 = .ok fs' := by
  simp only [write, Sidecar.path] at written
  split at written
  · cases written
  · next between first =>
    split at written
    · cases written
    · next second =>
      cases written
      refine ⟨?_, between, first, second⟩
      simp only [callerLines]

theorem written_of_write (written : write fs archive g threshold = (.ok files, fs')) : Written fs' archive g threshold := by
  obtain ⟨-, between, first, second⟩ := eq_of_write written
  have apart : (archive.append ".focus").Apart (archive.append ".md.focus") :=
    archive.apart_append_self (by decide) (by decide) (by decide)
  have calls := FileStore.readText_of_readBytes (FileStore.readBytes_of_writeBytes first)
  have markdown := FileStore.readText_of_readBytes (FileStore.readBytes_of_writeBytes second)
  exact ⟨FileStore.readText_of_writeBytes apart second calls, markdown⟩

theorem readText_of_write {p : Path} {text : String} (written : write fs archive g threshold = (.ok files, fs'))
    (apart : ∀ s ∈ endings, p.Apart (archive.append s)) (held : fs.readText p = .ok text) :
    fs'.readText p = .ok text := by
  obtain ⟨-, between, first, second⟩ := eq_of_write written
  refine FileStore.readText_of_writeBytes (apart _ (by simp [endings])) second ?_
  exact FileStore.readText_of_writeBytes (apart _ (by simp [endings])) first held

theorem Written.of_write {other : Path} {g' : CallGraph} (held : Written fs other g' threshold)
    (written : write fs archive g threshold = (.ok files, fs'))
    (apart : ∀ s ∈ endings, ∀ t ∈ endings, (other.append s).Apart (archive.append t)) :
    Written fs' other g' threshold where
  calls := readText_of_write written (apart _ (by simp [endings])) held.calls
  markdown := readText_of_write written (apart _ (by simp [endings])) held.markdown

theorem Written.of_left {x : Extractor} {c : CacheCall} (held : Written c.store.files archive g threshold)
    (spared : x.backend.SparesFocus) : Written (x.left c).files archive g threshold := by
  have kept {s text : String} (focus : s ∈ endings) (held : c.store.files.readText (archive.append s) = .ok text) :
      (x.left c).files.readText (archive.append s) = .ok text :=
    (x.ends c).readText (x.beside_append archive focus) (fun fs => spared s focus _ archive fs _) held
  exact ⟨kept (by simp [endings]) held.calls, kept (by simp [endings]) held.markdown⟩

end Focus
end MigrationMining
