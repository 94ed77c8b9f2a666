import Mathlib.Data.List.Basic
import MigrationMining.Proofs.ArchivePlaces
import MigrationMining.Proofs.FirstAndLast
import MigrationMining.Web.Fetch

/-! Names of the files that archives are downloaded to. An archive has a name in a directory whatever its release is, and the
file that is written before it is complete has another name in the same directory. -/

namespace MigrationMining

namespace Path

/-- What can be put at the end of a path, so that it ends in a name. -/
structure IsEnding (s : String) : Prop where
  slashFree : '/' ∉ s.toList
  solid : s.toList.any (· ≠ '.')

instance (s : String) : Decidable (IsEnding s) :=
  decidable_of_iff ('/' ∉ s.toList ∧ s.toList.any (· ≠ '.')) ⟨fun h => ⟨h.1, h.2⟩, fun h => ⟨h.1, h.2⟩⟩

theorem IsEnding.plainName {front ending : String} (h : IsEnding ending) (slashFree : '/' ∉ front.toList) :
    PlainName (front ++ ending) := by
  obtain ⟨c, mem, solid⟩ := List.any_eq_true.1 h.solid
  exact .of_suffix slashFree h.slashFree mem (by simpa using solid)

theorem exists_append_eq_div (p : Path) : ∃ (d : Path) (front : String), ∀ {ending : String}, IsEnding ending →
    p.append ending = d / (front ++ ending) ∧ PlainName (front ++ ending) := by
  by_cases slash : '/' ∈ p.text.toList
  · obtain ⟨_, rfl, before, last, whole, free⟩ := exists_isLast (p := (· = '/')) slash rfl
    refine ⟨⟨String.ofList (before ++ ['/'])⟩, .ofList last, fun {ending} h => ?_⟩
    have plain : PlainName (String.ofList last ++ ending) := h.plainName (by simpa using fun here => free _ here rfl)
    refine ⟨?_, plain⟩
    change _ = join _ ⟨_⟩
    have nonempty : isEmpty ⟨String.ofList (before ++ ['/'])⟩ = false := by simp [isEmpty_eq_false_iff]
    have text : p.text = String.ofList (before ++ '/' :: last) := by rw [← whole, String.ofList_toList]
    rw [join, plain.not_isAbsolute, nonempty, Bool.or_false, if_neg Bool.false_ne_true, if_pos (by simp), append, text,
      Path.mk.injEq, ← String.toList_inj]
    simp
  · exact ⟨⟨""⟩, p.text, fun h => ⟨(join_eq_of_isEmpty rfl).symm, h.plainName slash⟩⟩

theorem slash_notMem_splitExtension {name : String} (slashFree : '/' ∉ name.toList) :
    '/' ∉ (splitExtension name).1.toList := by
  unfold splitExtension
  split
  · next extension stem cut =>
    split
    · exact slashFree
    · intro slash
      rw [← List.mem_reverse, Text.eq_of_splitOnce cut] at slashFree
      rw [String.toList_ofList, List.mem_reverse] at slash
      exact slashFree (List.mem_append_right _ (List.mem_cons_of_mem _ slash))
  · exact slashFree

theorem extended_ne {name extension : String} (dot : '.' ∈ extension.toList) : extended name extension ≠ name := by
  have longer : name ++ "." ++ extension ≠ name := fun same => by
    have lengths := congrArg (List.length ∘ String.toList) same
    simp at lengths
  unfold extended splitExtension
  split
  · next old stem cut =>
    split
    · exact longer
    · intro same
      have whole := congrArg List.reverse (Text.eq_of_splitOnce cut)
      rw [List.reverse_reverse, ← same] at whole
      have same' : extension.toList = old.reverse := by simpa using whole
      exact Text.notMem_of_splitOnce cut (List.mem_reverse.1 (same' ▸ dot))
  · exact longer

end Path

namespace Layout

theorem append_archivePath (root : Path) (c : Coordinate) (extension suffix : String) :
    (archivePath root c extension).append suffix = archivePath root c (extension ++ suffix) := by
  have nonempty : Path.isEmpty ⟨fileName c extension⟩ = false := by simp [Path.isEmpty_eq_false_iff, fileName]
  have name : fileName c (extension ++ suffix) = fileName c extension ++ suffix := by simp [fileName, String.append_assoc]
  rw [archivePath_eq, Path.append_join _ nonempty, archivePath_eq, name]
  rfl

theorem isDigit_of_mem_toString {n : Nat} {c : Char} (mem : c ∈ (toString n).toList) : c.isDigit = true :=
  Nat.isDigit_of_mem_toDigits (b := 10) (n := n) (by omega) (by omega) (by simpa [Nat.repr] using mem)

theorem slash_notMem_toString (n : Nat) : '/' ∉ (toString n).toList := by
  intro mem
  have digit := isDigit_of_mem_toString mem
  simp at digit

end Layout

/-- The name of the file that a download is written to before it is complete. -/
def Fetch.partName (name : String) (process number : Nat) : String :=
  Path.extended name ("part." ++ toString process ++ "." ++ toString number)

namespace Fetch
open MigrationMining.Path

theorem partName_ne (name : String) (process number : Nat) : partName name process number ≠ name :=
  extended_ne (by simp)

theorem exists_getLast?_partName (name : String) (process number : Nat) :
    ∃ digit, (partName name process number).toList.getLast? = some digit ∧ digit.isDigit = true := by
  have nonempty : (toString number).toList ≠ [] := by simp
  refine ⟨(toString number).toList.getLast nonempty, ?_, Layout.isDigit_of_mem_toString (List.getLast_mem nonempty)⟩
  rw [partName, extended, ← String.append_assoc, String.toList_append, List.getLast?_append_of_ne_nil _ nonempty,
    List.getLast?_eq_getLast_of_ne_nil nonempty]

theorem plainName_partName {name : String} (plain : PlainName name) (process number : Nat) :
    PlainName (partName name process number) := by
  refine .of_mem (c := 'p') ?_ (by simp [partName, extended]) (by decide)
  have process := Layout.slash_notMem_toString process
  have number := Layout.slash_notMem_toString number
  simp only [partName, extended, String.toList_append, List.mem_append, slash_notMem_splitExtension plain.slashFree,
    process, number, or_false, false_or]
  decide

theorem scratch_div (d : Path) {name : String} (plain : PlainName name) (process number : Nat) :
    scratch (d / name) process number = d / partName name process number :=
  withExtension_div d plain (plainName_partName plain process number) (by simp [String.isEmpty_eq_false_iff])

end Fetch

theorem Layout.exists_archivePath_eq_div (root : Path) (c : Coordinate) :
    ∃ (d : Path) (front : String), archivePath root c "jar" = d / (front ++ "jar") ∧ Path.PlainName (front ++ "jar") := by
  have whole : archivePath root c "jar" = (archivePath root c "").append "jar" :=
    (append_archivePath root c "" "jar").symm
  rw [whole]
  obtain ⟨d, front, named⟩ := (archivePath root c "").exists_append_eq_div
  exact ⟨d, front, named (by decide)⟩

end MigrationMining
