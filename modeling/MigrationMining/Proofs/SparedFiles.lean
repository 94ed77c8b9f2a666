import MigrationMining.Proofs.FocusFiles
import MigrationMining.Proofs.OutputFiles
import MigrationMining.Proofs.WorldServices

/-! Files that the services of a setup leave alone. Archives, the files they are downloaded to and the entries of a cache are
not named like the files of a dataset, so that these keep their texts until they are saved again. -/

namespace MigrationMining

/-- A name that ends like those of tables and documents, and has a letter that no entry of a cache has in its name. -/
structure IsDatasetName (name : String) : Prop where
  plain : Path.PlainName name
  last : name.toList.getLast? = some 'n' ∨ name.toList.getLast? = some 'v'
  letter : ∃ c ∈ name.toList, c ∉ Digest.hexDigits ++ ".json".toList

def IsDatasetFile (p : Path) : Prop := ∃ (d : Path) (name : String), p = d / name ∧ IsDatasetName name

namespace IsDatasetFile
open MigrationMining.Path

variable {p : Path} {name : String}

theorem apart (own : IsDatasetFile p) (d : Path) (plain : PlainName name) (other : ¬ IsDatasetName name) :
    p.Apart (d / name) := by
  obtain ⟨d', name', rfl, named⟩ := own
  refine apart_of_place_ne fun same => other ?_
  rw [place_div d' named.plain, place_div d plain] at same
  have names : name' = name := by simpa using (List.append_inj' same rfl).2
  exact names ▸ named

theorem apart_archivePath (own : IsDatasetFile p) (root : Path) (c : Coordinate) :
    p.Apart (Layout.archivePath root c "jar") := by
  obtain ⟨d, front, at_target, plain⟩ := Layout.exists_archivePath_eq_div root c
  rw [at_target]
  refine own.apart d plain fun named => ?_
  have last := named.last
  simp at last

theorem apart_scratch (own : IsDatasetFile p) (root : Path) (c : Coordinate) (m n : Nat) :
    p.Apart (Fetch.scratch (Layout.archivePath root c "jar") m n) := by
  obtain ⟨d, front, at_target, plain⟩ := Layout.exists_archivePath_eq_div root c
  rw [at_target, Fetch.scratch_div d plain]
  refine own.apart d (Fetch.plainName_partName plain m n) fun named => ?_
  obtain ⟨digit, last, isDigit⟩ := Fetch.exists_getLast?_partName (front ++ "jar") m n
  rcases named.last with same | same <;> cases last.symm.trans same <;> cases isDigit

theorem beside (own : IsDatasetFile p) (x : Extractor) : x.Beside p := by
  intro i entry kept
  obtain ⟨directory, -, rfl⟩ := Extractor.entry?_eq_some kept
  rw [append_div directory i.plainName_entry]
  refine ⟨own.apart directory i.plainName_entry fun named => ?_, own.apart directory i.plainName_part fun named => ?_⟩
  · obtain ⟨c, mem, other⟩ := named.letter
    refine other (List.mem_append.2 ?_)
    rw [String.toList_append] at mem
    exact (List.mem_append.1 mem).imp_left Digest.mem_hexDigits
  · have last := named.last
    simp at last

open PairReport in
theorem outputFile {pair : Coordinate × Coordinate} (slashFree : SlashFree pair) (directory : Path) :
    IsDatasetFile (outputFile directory pair.1 pair.2) := by
  refine ⟨_, _, rfl, plainName_pairName slashFree, ?_, '_', ?_, by decide⟩
  · rw [DatasetFiles.pairName, String.toList_append, List.getLast?_append_of_ne_nil _ (by decide)]
    exact .inl (by decide)
  · simp [DatasetFiles.pairName]

theorem div_fileName (directory : Path) (named : name ∈ Analysis.fileNames) : IsDatasetFile (directory / name) := by
  have others : ∀ name ∈ Analysis.fileNames, (name.toList.getLast? = some 'n' ∨ name.toList.getLast? = some 'v') ∧
      name.toList.any fun c => !(Digest.hexDigits ++ ".json".toList).contains c := by decide +kernel
  obtain ⟨last, letter⟩ := others name named
  obtain ⟨c, mem, other⟩ := List.any_eq_true.1 letter
  exact ⟨directory, name, rfl, Analysis.plainName_of_mem_fileNames named, last, c, mem, by simpa using other⟩

end IsDatasetFile

/-- A backend leaves the texts of the files of datasets as they are. -/
def Backend.SparesDatasets (b : Backend) : Prop :=
  ∀ p, IsDatasetFile p → ∀ (archive : Path) (fs : FileStore) (text : String),
    fs.readText p = .ok text → (b.extract archive fs).2.readText p = .ok text

theorem Backend.sparesDatasets_facts : Backend.facts.SparesDatasets := fun _ _ _ _ _ held => held

def World.Keeps (p : Path) (w w' : World) : Prop :=
  ∀ text, w.files.readText p = .ok text → w'.files.readText p = .ok text

namespace World.Keeps

variable {p target : Path}

theorem refl (w : World) : w.Keeps p w := fun _ held => held

theorem trans (u v w : World) (first : u.Keeps p v) (second : v.Keeps p w) : u.Keeps p w :=
  fun text held => second text (first text held)

theorem allows : Allows (Keeps p) where
  refl := refl
  trans := trans
  asks w _ := refl w
  reports w _ := refl w

theorem stores (apart : p.Apart target) (scratch : ∀ m n, p.Apart (Fetch.scratch target m n)) :
    Allows.Stores (Keeps p) target where
  begins w _ := refl w
  directories w _ held := (FileStore.extends_treeAfter_makeDirectories w.files _).readText held
  writes m n _ _ _ written _ held := FileStore.readText_of_writeBytes (scratch m n) written held
  removes m n _ _ removed _ held := FileStore.readText_of_remove (scratch m n) removed held
  moves m n _ _ renamed _ held := FileStore.readText_of_rename (scratch m n) apart renamed held

end World.Keeps

namespace Setup

variable {setup : Setup} {x : Extractor}

theorem spares (spared : x.backend.SparesDatasets) : (setup.services x).Spares World.files IsDatasetFile where
  saved := setup.files_of_save x
  spared {path text e w w'} own step unsaved held := by
    refine World.Keeps.allows.of_step step ?_ ?_ ?_ text held
    · intro c root found _
      exact World.Keeps.allows.archive
        (World.Keeps.stores (own.apart_archivePath root c) (own.apart_scratch root c)) setup.archives
    · intro snapshot text held
      exact (x.ends ⟨snapshot, ⟨w.files, w.models⟩⟩).readText (own.beside x) (spared path own snapshot.path · text) held
    · rintro q t answer rfl text held
      rcases setup.save_cases x q t w with ⟨files, -, whole⟩ | ⟨e, failed, -⟩
      · exact absurd (congrArg (Exchange.save q t) (Prod.mk.inj (step.symm.trans whole)).1) (unsaved q t)
      · rw [failed]
        exact (FileStore.extends_of_interrupted_save failed).readText held

open MigrationReport PairReport in
/-- A reported output holds the adaptations of a report with the same output, in the files that the services leave. -/
theorem readText_of_reported (spared : x.backend.SparesDatasets) {directory : Path} {limit : Nat}
    {pairs : List (Coordinate × Coordinate)} {w w' : World} {attempts : List Attempt} {es : Trace} {r : MigrationReport}
    (slashFree : ∀ pair ∈ pairs, SlashFree pair)
    (run : Concurrent (setup.services x) directory limit pairs w attempts es r w') {p : PairReport} (listed : p ∈ r.pairs)
    {file : Path} (output : p.output = some file) :
    ∃ a ∈ attempts, ∃ q, a.outcome = some q ∧ (q.old, q.new) = a.pair ∧ q.output = some file ∧
      DatasetFiles.pairName q.old q.new = DatasetFiles.pairName p.old p.new ∧
      w'.files.readText file = .ok (DatasetFiles.adaptationsText q.adaptations) :=
  run.readText_of_reported (spares spared) (fun pair mem => .outputFile (slashFree pair mem) directory) slashFree listed output

open DatasetFiles Analysis in
theorem readText_of_other_library (spared : x.backend.SparesDatasets) (root : Path) {p q : Project}
    (slashFree : '/' ∉ p.text.toList ∧ '/' ∉ q.text.toList) (other : p.directoryName ≠ q.directoryName)
    (selection : Selection) (w : World) {name : String} (named : name ∈ fileNames) {text : String}
    (held : w.files.readText (libraryDirectory root p / name) = .ok text) :
    (run (setup.services x) root q selection w).2.files.readText (libraryDirectory root p / name) = .ok text :=
  Analysis.readText_of_other_library (spares spared) root slashFree other selection w named (.div_fileName _ named) held

end Setup
end MigrationMining
