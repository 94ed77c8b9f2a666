import Mathlib.Data.List.Nodup
import MigrationMining.Proofs.AnalysisTrace
import MigrationMining.Proofs.OutputNames
import MigrationMining.Proofs.SkippedPairs

/-! What is left in the output files when several client pairs are diffed and several libraries are analysed: a file
holds what was saved last under its name, so that outputs are lost only to pairs and libraries that share a name. -/

namespace MigrationMining
open Services

variable {σ : Type} {s : Services σ} {files : σ → FileStore} {mine : Path → Prop}

namespace PairReport
open DatasetFiles

def SlashFree (pair : Coordinate × Coordinate) : Prop := '/' ∉ pair.1.text.toList ∧ '/' ∉ pair.2.text.toList

variable {pair pair' : Coordinate × Coordinate}

theorem plainName_pairName (slashFree : SlashFree pair) : Path.PlainName (pairName pair.1 pair.2) := by
  have stem {c : Coordinate} (h : '/' ∉ c.text.toList) : '/' ∉ c.fileStem.toList := by
    rw [Coordinate.fileStem, String.toList_ofList, List.mem_map]
    rintro ⟨ch, mem, same⟩
    split at same
    · cases same
    · exact h (same ▸ mem)
  refine .of_underscore ?_ ?_
  · simp [pairName, stem slashFree.1, stem slashFree.2]
  · simp [pairName]

theorem outputFile_apart (directory : Path) (slashFree : SlashFree pair) (slashFree' : SlashFree pair')
    (other : pairName pair.1 pair.2 ≠ pairName pair'.1 pair'.2) :
    (outputFile directory pair.1 pair.2).Apart (outputFile directory pair'.1 pair'.2) :=
  Path.apart_of_name_ne _ (plainName_pairName slashFree) (plainName_pairName slashFree') other

theorem pairName_eq_of_outputFile {directory : Path} (slashFree : SlashFree pair) (slashFree' : SlashFree pair')
    (same : outputFile directory pair.1 pair.2 = outputFile directory pair'.1 pair'.2) :
    pairName pair.1 pair.2 = pairName pair'.1 pair'.2 := by
  have components := congrArg Path.components same
  rw [outputFile, outputFile, Path.components_div _ (plainName_pairName slashFree),
    Path.components_div _ (plainName_pairName slashFree')] at components
  simpa using components

end PairReport

namespace MigrationReport
open PairReport DatasetFiles

variable {directory : Path} {limit : Nat} {pairs : List (Coordinate × Coordinate)} {w w' : σ} {attempts : List Attempt}
  {es : Trace} {r : MigrationReport}

namespace Concurrent

theorem reported_of_saved (run : Concurrent s directory limit pairs w attempts es r w') {file : Path} {text : String}
    (saved : Exchange.save file text (.ok ()) ∈ es) :
    ∃ a ∈ attempts, ∃ p, a.outcome = some p ∧ (p.old, p.new) = a.pair ∧ p.output = some file ∧
      file = outputFile directory p.old p.new ∧ text = adaptationsText p.adaptations := by
  obtain ⟨fs, rfl, -, -, shared, possible, -⟩ := run.consistent
  have made : Exchange.save file text (.ok ()) ∈ fs := by simpa using saved
  obtain ⟨a, listed, mem⟩ := List.mem_flatMap.1 (shared.mem_iff.2 made)
  have written := Trace.mem_written.2 mem
  rcases (possible a listed).writes_or_not with ⟨p, outcome, pair, writes⟩ | ⟨-, nothing⟩
  · rw [writes.written, List.mem_singleton, Prod.mk.injEq] at written
    exact ⟨a, listed, p, outcome, pair, writes.output.trans (congrArg some written.1.symm), written.1, written.2⟩
  · rw [nothing] at written
    cases written

theorem saved_of_reported (run : Concurrent s directory limit pairs w attempts es r w') {p : PairReport}
    (listed : p ∈ r.pairs) {file : Path} (output : p.output = some file) :
    ∃ a ∈ attempts, a.outcome = some p ∧ (p.old, p.new) = a.pair ∧ file = outputFile directory p.old p.new ∧
      Exchange.save file (adaptationsText p.adaptations) (.ok ()) ∈ es := by
  obtain ⟨fs, rfl, report, -, shared, possible, -⟩ := run.consistent
  rw [report, (perm_ofOutcomes _ _).mem_iff, List.mem_filterMap] at listed
  obtain ⟨_, outcome, rfl⟩ := listed
  obtain ⟨a, made, outcome⟩ := List.mem_map.1 outcome
  rcases (possible a made).writes_or_not with ⟨q, same, pair, writes⟩ | ⟨nothing, -⟩
  · obtain rfl : q = p := Option.some.inj (same.symm.trans outcome)
    have place := Option.some.inj (output.symm.trans writes.output)
    refine ⟨a, made, outcome, pair, place, List.mem_append_left _ (shared.mem_iff.1 ?_)⟩
    rw [place]
    exact List.mem_flatMap.2 ⟨a, made, Trace.mem_written.1 (by simp [writes.written])⟩
  · rw [(nothing p outcome).1] at output
    cases output

theorem mem_pairs_of_outcome (run : Concurrent s directory limit pairs w attempts es r w') {a : Attempt} {p : PairReport}
    (made : a ∈ attempts) (outcome : a.outcome = some p) : p ∈ r.pairs := by
  obtain ⟨-, -, report, -⟩ := run.consistent
  rw [report, (perm_ofOutcomes _ _).mem_iff, List.mem_filterMap]
  exact ⟨some p, List.mem_map.2 ⟨a, made, outcome⟩, rfl⟩

section Files

variable (spares : s.Spares files mine) (owned : ∀ pair ∈ pairs, mine (outputFile directory pair.1 pair.2))
  (slashFree : ∀ pair ∈ pairs, SlashFree pair)
  (run : Concurrent s directory limit pairs w attempts es r w')

include spares owned slashFree run

theorem readText_of_reported {p : PairReport} (listed : p ∈ r.pairs) {file : Path} (output : p.output = some file) :
    ∃ a ∈ attempts, ∃ q, a.outcome = some q ∧ (q.old, q.new) = a.pair ∧ q.output = some file ∧
      pairName q.old q.new = pairName p.old p.new ∧
      (files w').readText file = .ok (adaptationsText q.adaptations) := by
  obtain ⟨-, -, -, paired, -, -, steps⟩ := run.consistent
  have pair_mem {a : Attempt} (made : a ∈ attempts) : a.pair ∈ pairs :=
    paired.mem_iff.1 (List.mem_map.2 ⟨a, made, rfl⟩)
  obtain ⟨a, made, outcome, pair, place, saved⟩ := run.saved_of_reported listed output
  have here := pair_mem made
  rw [← pair] at here
  rw [place] at saved ⊢
  have apart : ∀ q t, Exchange.save q t (.ok ()) ∈ es → q ≠ outputFile directory p.old p.new →
      (outputFile directory p.old p.new).Apart q := by
    intro q t other ne
    obtain ⟨b, listed, p', -, pair', -, elsewhere, -⟩ := run.reported_of_saved other
    have there := pair_mem listed
    rw [← pair'] at there
    have names := outputFile_apart directory (slashFree _ here) (slashFree _ there)
    rw [elsewhere] at ne ⊢
    refine names fun same => ne ?_
    rw [outputFile, outputFile, same]
  obtain ⟨last, saved, held⟩ := spares.readText_of_saved (owned _ here) steps saved apart
  obtain ⟨b, listed, q, outcome', pair', output', same, text⟩ := run.reported_of_saved saved
  have there := pair_mem listed
  rw [← pair'] at there
  have names := pairName_eq_of_outputFile (slashFree _ here) (slashFree _ there) same
  rw [text] at held
  exact ⟨b, listed, q, outcome', pair', output', names.symm, held⟩

theorem readText_of_own_name (distinct : pairs.Nodup) {p : PairReport} (listed : p ∈ r.pairs) {file : Path}
    (output : p.output = some file)
    (own : ∀ pair ∈ pairs, pairName pair.1 pair.2 = pairName p.old p.new → pair = (p.old, p.new)) :
    (files w').readText file = .ok (adaptationsText p.adaptations) := by
  obtain ⟨b, other, q, outcome', pair', -, same, held⟩ := run.readText_of_reported spares owned slashFree listed output
  obtain ⟨a, made, outcome, pair, -, -⟩ := run.saved_of_reported listed output
  obtain ⟨-, -, -, paired, -, -, -⟩ := run.consistent
  have named : b.pair = a.pair := by
    rw [← pair', ← pair]
    refine own _ ?_ same
    rw [pair']
    exact paired.mem_iff.1 (List.mem_map.2 ⟨b, other, rfl⟩)
  obtain rfl := List.inj_on_of_nodup_map (paired.nodup_iff.2 distinct) other made named
  rw [outcome] at outcome'
  rw [held, Option.some.inj outcome']

end Files

end Concurrent
end MigrationReport

theorem Services.ComparisonsRun.written {n made : Nat} {es : Trace} (h : ComparisonsRun n made es) : es.written = [] := by
  induction h with
  | done => rfl
  | cancelled => rfl
  | next _ ih => exact ih

namespace Dataset

variable {library : Project} {versions : List Coordinate} {es : Trace}

theorem ListingRun.written {unlisted : Option Coordinate} (h : ListingRun versions unlisted es) : es.written = [] := by
  induction h with
  | done => rfl
  | unlisted => rfl
  | next _ _ ih => exact ih

theorem LinksRun.written {links : List Link} (h : LinksRun versions links es) : es.written = [] := by
  induction h with
  | done => rfl
  | cancelled => rfl
  | next _ _ _ ih => exact ih

theorem Collects.written {selection : Selection} {result : Except Failure Dataset}
    (h : Collects library selection result es) : es.written = [] := by
  cases h with
  | all => rfl
  | cancelled => rfl
  | unlisted _ listing => exact listing.written
  | listed _ listing linking => rw [Trace.written_append, listing.written, linking.written, List.append_nil]

end Dataset

namespace Analysis
open DatasetFiles

variable {root directory : Path} {library : Project} {selection : Selection} {es : Trace}

theorem SavesRun.written_subset {files : List (Path × String)} {saved : Except Failure Unit}
    (h : SavesRun files saved es) : es.written ⊆ files := by
  induction h with
  | done => exact List.nil_subset _
  | refused => exact List.nil_subset _
  | next path text _ ih => exact List.cons_subset_cons _ ih

def fileNames : List String := [linksName, matrixName, candidatesName]

theorem Compares.name_of_written {d : Dataset} {result : Except Failure (UsageMatrix × List Candidate)}
    (h : Compares directory d result es) {file : Path × String} (written : file ∈ es.written) :
    ∃ name ∈ fileNames, file.1 = directory / name := by
  cases h with
  | stray => cases written
  | compared built comparisons saving =>
    rw [Trace.written_append, comparisons.written, List.nil_append] at written
    have among := saving.written_subset written
    simp only [comparedFiles, List.mem_cons, List.not_mem_nil, or_false] at among
    rcases among with rfl | rfl
    · exact ⟨matrixName, by simp [fileNames], rfl⟩
    · exact ⟨candidatesName, by simp [fileNames], rfl⟩

theorem Ends.name_of_written {result : Except Failure Analysis} (h : Ends directory library selection result es)
    {file : Path × String} (written : file ∈ es.written) : ∃ name ∈ fileNames, file.1 = directory / name := by
  have links {d : Dataset} {fs : Trace} (first : file ∈ Trace.written (.save (linksFile directory d).1 (linksFile directory d).2
      (.ok ()) :: fs)) (later : file ∈ fs.written → ∃ name ∈ fileNames, file.1 = directory / name) :
      ∃ name ∈ fileNames, file.1 = directory / name := by
    rw [Trace.written_saved] at first
    rcases List.mem_cons.1 first with rfl | rest
    · exact ⟨linksName, by simp [fileNames], rfl⟩
    · exact later rest
  cases h with
  | uncollected collects =>
    rw [collects.written] at written
    cases written
  | unsaved collects =>
    rw [Trace.written_append, collects.written] at written
    cases written
  | single only cancelled collects =>
    rw [Trace.written_append, collects.written, List.nil_append] at written
    exact links written fun rest => by cases rest
  | uncompared plural collects compares =>
    rw [Trace.written_append, collects.written, List.nil_append] at written
    exact links written compares.name_of_written
  | compared plural cancelled collects compares =>
    rw [Trace.written_append, collects.written, List.nil_append] at written
    refine links written fun rest => compares.name_of_written ?_
    rw [Trace.written_append] at rest
    exact (List.mem_append.1 rest).resolve_right (by simp [Trace.written])

theorem plainName_of_mem_fileNames {name : String} (h : name ∈ fileNames) : Path.PlainName name := by
  have plain : ∀ name ∈ fileNames, '/' ∉ name.toList ∧ Path.componentOf? name.toList = some (.normal name) := by
    decide +kernel
  exact ⟨(plain name h).1, (plain name h).2⟩

theorem plainName_directoryName {p : Project} (slashFree : '/' ∉ p.text.toList) : Path.PlainName p.directoryName := by
  simp only [Project.text, String.toList_append, List.mem_append, not_or] at slashFree
  refine .of_underscore ?_ ?_
  · simp [Project.directoryName, slashFree.1.1, slashFree.2]
  · simp [Project.directoryName]

theorem readText_of_other_library (spares : s.Spares files mine) (root : Path) {p q : Project}
    (slashFree : '/' ∉ p.text.toList ∧ '/' ∉ q.text.toList) (other : p.directoryName ≠ q.directoryName)
    (selection : Selection) (w : σ) {name : String} (named : name ∈ fileNames) (owned : mine (libraryDirectory root p / name))
    {text : String} (held : (files w).readText (libraryDirectory root p / name) = .ok text) :
    (files (run s root q selection w).2).readText (libraryDirectory root p / name) = .ok text := by
  obtain ⟨es, -, ends, steps⟩ := run_traced s root q selection w
  refine spares.readText_of_steps owned steps (fun file t saved => ?_) held
  obtain ⟨name', named', there⟩ := ends.name_of_written (Trace.mem_written.2 saved)
  simp only at there
  rw [there]
  exact Path.apart_of_directory_ne root (plainName_directoryName slashFree.1) (plainName_directoryName slashFree.2) other
    (plainName_of_mem_fileNames named) (plainName_of_mem_fileNames named')

end Analysis

namespace Journal

variable {a : Answers} {j j' : Journal}

theorem files_of_linksTo {clients : Coordinate → StateM Journal (List Coordinate)}
    (kept : ∀ c j, (clients c j).2.files = j.files) (versions : List Coordinate) (j : Journal) :
    (linksTo clients versions j).2.files = j.files := by
  induction versions generalizing j with
  | nil => rfl
  | cons v vs ih =>
    change (linksTo clients vs (clients v j).2).2.files = j.files
    rw [ih, kept]

theorem extends_of_step {e : Exchange} (step : (services a).Step j e j') (unsaved : ∀ q t, e ≠ .save q t (.ok ())) :
    FileStore.Extends j.files j'.files := by
  have same {fs : FileStore} (h : fs = j.files) : FileStore.Extends j.files fs := fun _ _ held => h ▸ held
  have answered {α : Type} {call : Call} {x found : α} (h : answer call x j = (found, j')) :
      FileStore.Extends j.files j'.files := by
    obtain ⟨-, rfl⟩ := Prod.mk.inj h.symm
    exact same rfl
  cases e with
  | releases | clients | isListed | dependencies | archive | declarations | callGraph => exact answered step
  | links p found =>
    cases known : a.links with
    | some links =>
      simp only [Step, services, known] at step
      exact answered step
    | none =>
      simp only [Step, services, known] at step
      obtain ⟨-, rfl⟩ := Prod.mk.inj step.symm
      exact same (files_of_linksTo (fun _ _ => rfl) (a.releases p) (note (.releases p) j).2)
  | save path text answer =>
    simp only [Step, services] at step
    split at step
    · obtain ⟨rfl, -⟩ := Prod.mk.inj step
      exact absurd rfl (unsaved path text)
    · next interrupted =>
      obtain ⟨-, rfl⟩ := Prod.mk.inj step
      exact FileStore.extends_of_interrupted_save interrupted
  | report d =>
    obtain ⟨-, rfl⟩ := Prod.mk.inj step.symm
    exact same rfl
  | cancelled c =>
    obtain ⟨-, rfl⟩ := Prod.mk.inj step.symm
    exact same rfl

theorem spares (a : Answers) : (services a).Spares Journal.files fun _ => True where
  saved {path text j j'} step := by
    simp only [services] at step
    split at step
    · next written =>
      obtain ⟨-, rfl⟩ := Prod.mk.inj step
      exact written
    · cases (Prod.mk.inj step).1
  spared _ step unsaved held := (extends_of_step step unsaved).readText held

end Journal

section Outputs
open DatasetFiles MigrationReport PairReport Analysis

/-- Directories of libraries are shared only by libraries that are shifted against each other, and files of readable pairs
only by pairs with the same pieces. Whatever overlaps, an output of distinct pairs without slashes holds the adaptations
of a report with the same output, which is its own if no other pair has its pieces; and an analysis leaves the files of
a library alone that is not shifted against its own. -/
theorem outputs_kept_apart (spares : s.Spares files mine) (root : Path) :
    (∀ p q : Project, p.group.toList.head? ≠ some '/' ∧ q.group.toList.head? ≠ some '/' →
      (libraryDirectory root p = libraryDirectory root q ↔ p = q ∨ p.Shifted q ∨ q.Shifted p)) ∧
    (∀ p q : Coordinate × Coordinate, p.1.Readable ∧ p.2.Readable → q.1.Readable ∧ q.2.Readable →
      (pairName p.1 p.2 = pairName q.1 q.2 ↔ pairPieces p = pairPieces q)) ∧
    (∀ directory limit pairs w attempts es r w', Concurrent s directory limit pairs w attempts es r w' → pairs.Nodup →
      (∀ pair ∈ pairs, (pair.1.Readable ∧ pair.2.Readable) ∧ SlashFree pair ∧ mine (outputFile directory pair.1 pair.2)) →
      ∀ p ∈ r.pairs, ∀ file, p.output = some file →
        (∃ q ∈ r.pairs, q.output = some file ∧ pairPieces (q.old, q.new) = pairPieces (p.old, p.new) ∧
          (files w').readText file = .ok (adaptationsText q.adaptations)) ∧
        ((∀ pair ∈ pairs, pairPieces pair = pairPieces (p.old, p.new) → pair = (p.old, p.new)) →
          (files w').readText file = .ok (adaptationsText p.adaptations))) ∧
    (∀ p q : Project, '/' ∉ p.text.toList ∧ '/' ∉ q.text.toList → p ≠ q → ¬ p.Shifted q → ¬ q.Shifted p →
      ∀ selection w, ∀ name ∈ fileNames, mine (libraryDirectory root p / name) →
        ∀ text, (files w).readText (libraryDirectory root p / name) = .ok text →
          (files (Analysis.run s root q selection w).2).readText (libraryDirectory root p / name) = .ok text) := by
  refine ⟨fun p q => libraryDirectory_eq_iff, fun p q => pairName_eq_iff, ?_, ?_⟩
  · intro directory limit pairs w attempts es r w' run distinct wellFormed p listed file output
    have owned := fun pair mem => (wellFormed pair mem).2.2
    have slashFree := fun pair mem => (wellFormed pair mem).2.1
    have readable {p : PairReport} (mem : (p.old, p.new) ∈ pairs) : p.old.Readable ∧ p.new.Readable := (wellFormed _ mem).1
    obtain ⟨-, -, -, paired, -, -, -⟩ := run.consistent
    have pair_mem {a : Attempt} {p : PairReport} (made : a ∈ attempts) (pair : (p.old, p.new) = a.pair) :
        (p.old, p.new) ∈ pairs := by
      rw [pair]
      exact paired.mem_iff.1 (List.mem_map.2 ⟨a, made, rfl⟩)
    obtain ⟨a, made, -, pair, -, -⟩ := run.saved_of_reported listed output
    have here := readable (pair_mem made pair)
    constructor
    · obtain ⟨b, other, q, outcome, pair', output', same, held⟩ :=
        run.readText_of_reported spares owned slashFree listed output
      have there := readable (pair_mem other pair')
      have pieces := (pairName_eq_iff (p := (q.old, q.new)) (q := (p.old, p.new)) there here).1 same
      exact ⟨q, run.mem_pairs_of_outcome other outcome, output', pieces, held⟩
    · intro own
      refine run.readText_of_own_name spares owned slashFree distinct listed output fun pair mem same => own pair mem ?_
      exact (pairName_eq_iff (q := (p.old, p.new)) (wellFormed pair mem).1 here).1 same
  · intro p q slashFree ne left right selection w name named owned text held
    have other : p.directoryName ≠ q.directoryName := fun same =>
      (Project.directoryName_eq_iff.1 same).elim ne fun shifted => shifted.elim left right
    exact readText_of_other_library spares root slashFree other selection w named owned held

theorem mem_pairs_of_attemptAll {directory : Path} {pairs : List (Coordinate × Coordinate)} {w : σ} {p : PairReport}
    (reported : some p ∈ (attemptAll s directory pairs w).1) : p ∈ (MigrationReport.run s directory pairs w).1.pairs :=
  (perm_ofOutcomes _ _).mem_iff.2 (List.mem_filterMap.2 ⟨_, reported, rfl⟩)

/-- One client that drops a library it calls, and others without dependencies. -/
def droppedLibrary : Answers where
  releases _ := []
  clients _ := []
  links := none
  isListed _ := true
  dependencies c := if c = ⟨"x_c", "d", "1"⟩ then [⟨"g", "a", "1"⟩] else []
  archive c directory := some (directory / c.text)
  declarations _ := .ok (Std.ExtTreeSet.ofList ["m"] compare)
  callGraph x := .ok (CallGraph.ofFacts (if x.coordinate.version = "1" then [("f", "m"), ("f", "n")] else [("f", "n")]))

def droppingServices : Services Journal := Journal.services droppedLibrary

theorem spares_droppingServices : droppingServices.Spares Journal.files fun _ => True := Journal.spares droppedLibrary

def update (group artifact : String) : Coordinate × Coordinate := (⟨group, artifact, "1"⟩, ⟨group, artifact, "2"⟩)

def minedLibrary : Journal where
  files := { nodes := [(["data"], .directory), (["data", "g_a"], .directory),
    (["data", "g_a", "candidates.json"], .file "[]".toUTF8 0)] }

/-- Of two pairs with different names the first keeps its adaptation, and an analysis of `h:a` keeps the candidates of
`g:a`. -/
theorem outputs_kept_apart_of_names :
    (∃ p ∈ (MigrationReport.run droppingServices ⟨"out"⟩ [update "x_c" "d", update "x" "c"] {}).1.pairs,
      p.output = some ⟨"out/migrations/x_c_d_1__x_c_d_2.json"⟩ ∧ p.adaptations.length = 1 ∧
      (MigrationReport.run droppingServices ⟨"out"⟩ [update "x_c" "d", update "x" "c"] {}).2.files.readText
        ⟨"out/migrations/x_c_d_1__x_c_d_2.json"⟩ = .ok (adaptationsText p.adaptations)) ∧
    (Analysis.run droppingServices ⟨"data"⟩ ⟨"h", "a"⟩ .all minedLibrary).2.files.readText
      (libraryDirectory ⟨"data"⟩ ⟨"g", "a"⟩ / candidatesName) = .ok "[]" := by
  obtain ⟨-, -, pairs, libraries⟩ := outputs_kept_apart spares_droppingServices ⟨"data"⟩
  constructor
  · have wellFormed : ∀ pair ∈ [update "x_c" "d", update "x" "c"],
        (pair.1.Readable ∧ pair.2.Readable) ∧ SlashFree pair ∧ True := by
      have named : ∀ pair ∈ [update "x_c" "d", update "x" "c"], Coordinate.parse pair.1.text = .ok pair.1 ∧
          Coordinate.parse pair.2.text = .ok pair.2 ∧ '/' ∉ pair.1.text.toList ∧ '/' ∉ pair.2.text.toList := by
        decide +kernel
      intro pair mem
      obtain ⟨first, second, slashFree⟩ := named pair mem
      exact ⟨⟨Coordinate.readable_of_parse first, Coordinate.readable_of_parse second⟩, slashFree, trivial⟩
    have outcomes : (attemptAll droppingServices ⟨"out"⟩ [update "x_c" "d", update "x" "c"] {}).1.map
        (·.map fun p => ((p.old, p.new), p.output, p.adaptations.length)) =
        [some (update "x_c" "d", some ⟨"out/migrations/x_c_d_1__x_c_d_2.json"⟩, 1),
          some (update "x" "c", some ⟨"out/migrations/x_c_1__x_c_2.json"⟩, 0)] := by decide +kernel
    have apart : ∀ pair ∈ [update "x_c" "d", update "x" "c"],
        pairPieces pair = pairPieces (update "x_c" "d") → pair = update "x_c" "d" := by decide +kernel
    obtain ⟨attempts, -, run⟩ := Concurrent.of_run droppingServices ⟨"out"⟩ 1 [update "x_c" "d", update "x" "c"] {}
    cases reported : (attemptAll droppingServices ⟨"out"⟩ [update "x_c" "d", update "x" "c"] {}).1 with
    | nil => simp [reported] at outcomes
    | cons first others =>
      rw [reported, List.map_cons, List.cons.injEq] at outcomes
      obtain ⟨p, rfl, own⟩ := Option.map_eq_some_iff.1 outcomes.1
      obtain ⟨named, own⟩ := Prod.mk.inj own
      obtain ⟨output, single⟩ := Prod.mk.inj own
      have listed : p ∈ (MigrationReport.run droppingServices ⟨"out"⟩ [update "x_c" "d", update "x" "c"] {}).1.pairs :=
        mem_pairs_of_attemptAll (by simp [reported])
      have kept := (pairs _ _ _ _ _ _ _ _ run (by decide +kernel) wellFormed p listed _ output).2
      rw [named] at kept
      exact ⟨p, listed, output, single, kept apart⟩
  · have unshifted : ¬ Project.Shifted ⟨"g", "a"⟩ ⟨"h", "a"⟩ ∧ ¬ Project.Shifted ⟨"h", "a"⟩ ⟨"g", "a"⟩ := by
      constructor
      · rintro ⟨x, group, -⟩
        simpa using congrArg String.toList group
      · rintro ⟨x, group, -⟩
        simpa using congrArg String.toList group
    exact libraries ⟨"g", "a"⟩ ⟨"h", "a"⟩ (by decide +kernel) (by simp) unshifted.1 unshifted.2 .all minedLibrary
      candidatesName (by simp [fileNames]) trivial "[]" (by decide +kernel)

/-- A pair whose fields are joined to the same name overwrites the adaptation of the first one, and the libraries `x_c:d` and
`x:c_d` have one directory. -/
theorem outputs_lost_to_shared_name :
    Project.parse "x_c:d" = .ok ⟨"x_c", "d"⟩ ∧ Project.parse "x:c_d" = .ok ⟨"x", "c_d"⟩ ∧
    libraryDirectory ⟨"data"⟩ ⟨"x_c", "d"⟩ = libraryDirectory ⟨"data"⟩ ⟨"x", "c_d"⟩ ∧
    ∃ p ∈ (MigrationReport.run droppingServices ⟨"out"⟩ [update "x_c" "d", update "x" "c_d"] {}).1.pairs,
      p.output = some ⟨"out/migrations/x_c_d_1__x_c_d_2.json"⟩ ∧ p.adaptations.length = 1 ∧
      (MigrationReport.run droppingServices ⟨"out"⟩ [update "x_c" "d", update "x" "c_d"] {}).2.files.readText
        ⟨"out/migrations/x_c_d_1__x_c_d_2.json"⟩ = .ok (adaptationsText []) := by
  have outcomes : (attemptAll droppingServices ⟨"out"⟩ [update "x_c" "d", update "x" "c_d"] {}).1.map
      (·.map fun p => (p.output, p.adaptations.length)) =
      [some (some ⟨"out/migrations/x_c_d_1__x_c_d_2.json"⟩, 1), some (some ⟨"out/migrations/x_c_d_1__x_c_d_2.json"⟩, 0)] := by
    decide +kernel
  have nothing : adaptationsText [] = "[]" := by decide +kernel
  have overwritten : (MigrationReport.run droppingServices ⟨"out"⟩ [update "x_c" "d", update "x" "c_d"] {}).2.files.readText
      ⟨"out/migrations/x_c_d_1__x_c_d_2.json"⟩ = .ok "[]" := by decide +kernel
  rw [nothing]
  refine ⟨by decide +kernel, by decide +kernel, by decide +kernel, ?_⟩
  cases reported : (attemptAll droppingServices ⟨"out"⟩ [update "x_c" "d", update "x" "c_d"] {}).1 with
  | nil => simp [reported] at outcomes
  | cons first others =>
    rw [reported, List.map_cons, List.cons.injEq] at outcomes
    obtain ⟨p, rfl, own⟩ := Option.map_eq_some_iff.1 outcomes.1
    rw [Prod.mk.injEq] at own
    exact ⟨p, mem_pairs_of_attemptAll (by simp [reported]), own.1, own.2, overwritten⟩

end Outputs

end MigrationMining
