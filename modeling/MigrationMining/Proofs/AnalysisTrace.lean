import MigrationMining.Pipeline.Analysis
import MigrationMining.Proofs.ServiceTrace

/-! What an analysis asks of its services and what it makes of the answers: all ways in which the releases are chosen,
the links are collected, the pairs are compared and the files are saved. -/

namespace MigrationMining

open Services

variable {σ : Type} (s : Services σ)

/-- The releases that a selection names, if it does not ask for all. -/
def Selection.named? (library : Project) : Selection → Option (List Coordinate)
  | .all => none
  | .single version => some [library.release version]
  | .pair first second => some [library.release first, library.release second]

namespace Dataset

/-- Asking whether releases are listed stops at the first one that is not. -/
inductive ListingRun : List Coordinate → Option Coordinate → Trace → Prop where
  | done : ListingRun [] none []
  | unlisted (c : Coordinate) (rest : List Coordinate) : ListingRun (c :: rest) (some c) [.isListed c false]
  | next (c : Coordinate) {rest : List Coordinate} {unlisted : Option Coordinate} {es : Trace}
      (later : ListingRun rest unlisted es) : ListingRun (c :: rest) unlisted (.isListed c true :: es)

/-- Looking up clients release by release stops when the run is found cancelled, and what was found is kept. -/
inductive LinksRun : List Coordinate → List Link → Trace → Prop where
  | done : LinksRun [] [] []
  | cancelled (v : Coordinate) (rest : List Coordinate) : LinksRun (v :: rest) [] [.cancelled true]
  | next (v : Coordinate) (found : List Coordinate) {rest : List Coordinate} {links : List Link} {es : Trace}
      (later : LinksRun rest links es) :
      LinksRun (v :: rest) (found.map (⟨v, ·⟩) ++ links) (.cancelled false :: .clients v found :: es)

/-- A collection of a dataset, with its result and its exchanges. -/
inductive Collects (library : Project) : Selection → Except Failure Dataset → Trace → Prop where
  | all (versions : List Coordinate) (found : List Link) :
      Collects library .all (.ok ⟨library, .all, versions, found.filter (·.library ∈ versions)⟩)
        [.releases library versions, .cancelled false, .links library found]
  | cancelled (versions : List Coordinate) :
      Collects library .all (.ok ⟨library, .all, versions, []⟩) [.releases library versions, .cancelled true]
  | unlisted {selection : Selection} {versions : List Coordinate} {c : Coordinate} {es : Trace}
      (named : selection.named? library = some versions) (listing : ListingRun versions (some c) es) :
      Collects library selection (.error (.notFound c.text)) es
  | listed {selection : Selection} {versions : List Coordinate} {links : List Link} {es fs : Trace}
      (named : selection.named? library = some versions) (listing : ListingRun versions none es)
      (linking : LinksRun versions links fs) :
      Collects library selection (.ok ⟨library, selection, versions, links⟩) (es ++ fs)

theorem firstUnlisted_traced (versions : List Coordinate) :
    Traced s (firstUnlisted s.noted versions) (firstUnlisted s versions) (ListingRun versions) := by
  induction versions with
  | nil => exact Traced.pure .done
  | cons c cs ih =>
    refine Traced.call fun listed => ?_
    cases listed with
    | false => exact Traced.pure (.unlisted c cs)
    | true => exact ih.mono fun _ _ later => .next c later

theorem linksUntilCancelled_traced (versions : List Coordinate) :
    Traced s (linksUntilCancelled s.noted versions) (linksUntilCancelled s versions) (LinksRun versions) := by
  induction versions with
  | nil => exact Traced.pure .done
  | cons v vs ih =>
    refine Traced.call fun cancelled => ?_
    cases cancelled with
    | true => exact Traced.pure (.cancelled v vs)
    | false =>
      refine Traced.call fun found => ih.bind fun links es later => Traced.pure ?_
      rw [List.append_nil]
      exact .next v found later

theorem knownLinks_traced (library : Project) (versions : List Coordinate) :
    Traced s (knownLinks s.noted library versions) (knownLinks s library versions) fun links es =>
      links = [] ∧ es = [.cancelled true] ∨
        ∃ found, links = found.filter (·.library ∈ versions) ∧ es = [.cancelled false, .links library found] := by
  refine Traced.call fun cancelled => ?_
  cases cancelled with
  | true => exact Traced.pure (.inl ⟨rfl, rfl⟩)
  | false => exact Traced.call fun found => Traced.pure (.inr ⟨found, rfl, rfl⟩)

theorem listed_traced (versions : List Coordinate) :
    Traced s (listed s.noted versions) (listed s versions) fun chosen es =>
      (∃ c, chosen = .error (.notFound c.text) ∧ ListingRun versions (some c) es) ∨
        chosen = .ok versions ∧ ListingRun versions none es := by
  refine (firstUnlisted_traced s versions).bind fun unlisted es listing => ?_
  cases unlisted with
  | some c =>
    refine Traced.pure (.inl ⟨c, rfl, ?_⟩)
    rwa [List.append_nil]
  | none =>
    refine Traced.pure (.inr ⟨rfl, ?_⟩)
    rwa [List.append_nil]

theorem collect_traced (library : Project) (selection : Selection) :
    Traced s (collect s.noted library selection) (collect s library selection) (Collects library selection) := by
  cases selection with
  | all =>
    refine Traced.bind (P := fun chosen es => ∃ versions, chosen = .ok versions ∧ es = [.releases library versions])
      (Traced.call fun versions => Traced.pure ⟨versions, rfl, rfl⟩) ?_
    rintro _ _ ⟨versions, rfl, rfl⟩
    refine (knownLinks_traced s library versions).bind ?_
    rintro _ _ (⟨rfl, rfl⟩ | ⟨found, rfl, rfl⟩)
    · exact Traced.pure (.cancelled versions)
    · exact Traced.pure (.all versions found)
  | single version =>
    refine (listed_traced s [library.release version]).bind ?_
    rintro _ es (⟨c, rfl, listing⟩ | ⟨rfl, listing⟩)
    · refine Traced.pure ?_
      rw [List.append_nil]
      exact .unlisted rfl listing
    · refine (linksUntilCancelled_traced s _).bind fun links fs linking => Traced.pure ?_
      rw [List.append_nil]
      exact .listed rfl listing linking
  | pair first second =>
    refine (listed_traced s [library.release first, library.release second]).bind ?_
    rintro _ es (⟨c, rfl, listing⟩ | ⟨rfl, listing⟩)
    · refine Traced.pure ?_
      rw [List.append_nil]
      exact .unlisted rfl listing
    · refine (linksUntilCancelled_traced s _).bind fun links fs linking => Traced.pure ?_
      rw [List.append_nil]
      exact .listed rfl listing linking

end Dataset

/-- Of some comparisons those are made before which the run is not found cancelled. -/
inductive Services.ComparisonsRun : Nat → Nat → Trace → Prop where
  | done : ComparisonsRun 0 0 []
  | cancelled (n : Nat) : ComparisonsRun (n + 1) 0 [.cancelled true]
  | next {n made : Nat} {es : Trace} (later : ComparisonsRun n made es) :
      ComparisonsRun (n + 1) (made + 1) (.cancelled false :: es)

theorem Services.comparisons_traced (n : Nat) :
    Traced s (s.noted.comparisons n) (s.comparisons n) (ComparisonsRun n) := by
  induction n with
  | zero => exact Traced.pure .done
  | succ n ih =>
    refine Traced.call fun cancelled => ?_
    cases cancelled with
    | true => exact Traced.pure (.cancelled n)
    | false =>
      refine ih.bind fun made es later => Traced.pure ?_
      rw [List.append_nil, Nat.add_comm 1 made]
      exact .next later

namespace Analysis

/-- Files are saved up to the first one that cannot be. -/
inductive SavesRun : List (Path × String) → Except Failure Unit → Trace → Prop where
  | done : SavesRun [] (.ok ()) []
  | refused (path : Path) (text : String) (rest : List (Path × String)) (e : Failure) :
      SavesRun ((path, text) :: rest) (.error e) [.save path text (.error e)]
  | next (path : Path) (text : String) {rest : List (Path × String)} {saved : Except Failure Unit} {es : Trace}
      (later : SavesRun rest saved es) : SavesRun ((path, text) :: rest) saved (.save path text (.ok ()) :: es)

theorem saveAll_traced (files : List (Path × String)) :
    Traced s (saveAll s.noted files) (saveAll s files) (SavesRun files) := by
  induction files with
  | nil => exact Traced.pure .done
  | cons file files ih =>
    obtain ⟨path, text⟩ := file
    refine Traced.call fun saved => ?_
    cases saved with
    | error e => exact Traced.pure (.refused path text files e)
    | ok _ => exact ih.mono fun _ _ later => .next path text later

/-- The files of a comparison, in the order in which they are saved. -/
def comparedFiles (directory : Path) (m : UsageMatrix) (candidates : List Candidate) : List (Path × String) :=
  [(directory / DatasetFiles.matrixName, DatasetFiles.matrixText m),
    (directory / DatasetFiles.candidatesName, DatasetFiles.candidatesText candidates)]

/-- A comparison of the releases of a dataset, with its result and its exchanges. -/
inductive Compares (directory : Path) (d : Dataset) : Except Failure (UsageMatrix × List Candidate) → Trace → Prop where
  | stray {stray : StrayLink} (unbuilt : UsageMatrix.build d.versions d.links = .error stray) :
      Compares directory d (.error stray.failure) []
  | compared {m : UsageMatrix} {made : Nat} {saved : Except Failure Unit} {es fs : Trace}
      (built : UsageMatrix.build d.versions d.links = .ok m)
      (comparisons : ComparisonsRun (orderedPairs m.versions).length made es)
      (saving : SavesRun (comparedFiles directory m (Candidate.rankUntil (made ≤ ·) m.versions m m.clients)) saved fs) :
      Compares directory d (saved.map fun _ => (m, Candidate.rankUntil (made ≤ ·) m.versions m m.clients)) (es ++ fs)

theorem compare_traced (directory : Path) (d : Dataset) :
    Traced s (compare s.noted directory d) (compare s directory d) (Compares directory d) := by
  unfold compare
  cases built : UsageMatrix.build d.versions d.links with
  | error stray => exact Traced.pure (.stray built)
  | ok m =>
    refine Traced.bind (P := fun candidates es => ∃ made, ComparisonsRun (orderedPairs m.versions).length made es ∧
      candidates = Candidate.rankUntil (made ≤ ·) m.versions m m.clients) ?_ ?_
    · refine (comparisons_traced s _).bind fun made es comparisons => Traced.pure ⟨made, ?_, rfl⟩
      rwa [List.append_nil]
    · rintro _ es ⟨made, comparisons, rfl⟩
      refine (saveAll_traced s _).bind fun saved fs saving => ?_
      have ends := Compares.compared built comparisons saving
      cases saved with
      | error e =>
        refine Traced.pure ?_
        rw [List.append_nil]
        exact ends
      | ok _ =>
        refine Traced.pure ?_
        rw [List.append_nil]
        exact ends

def assembled (directory : Path) (d : Dataset) (matrix : Option UsageMatrix) (candidates : List Candidate)
    (cancelled : Bool) : Analysis where
  dataset := d
  matrix := matrix
  candidates := candidates
  statistics := .compute d.versions d.links candidates
  directory := directory
  cancelled := cancelled

def linksFile (directory : Path) (d : Dataset) : Path × String :=
  (directory / DatasetFiles.linksName, DatasetFiles.linksText d.links)

/-- An analysis, with its result and its exchanges. -/
inductive Ends (directory : Path) (library : Project) (selection : Selection) :
    Except Failure Analysis → Trace → Prop where
  | uncollected {e : Failure} {es : Trace} (collects : Dataset.Collects library selection (.error e) es) :
      Ends directory library selection (.error e) es
  | unsaved {d : Dataset} {e : Failure} {es : Trace} (collects : Dataset.Collects library selection (.ok d) es) :
      Ends directory library selection (.error e)
        (es ++ [.save (linksFile directory d).1 (linksFile directory d).2 (.error e)])
  | single {version : String} (only : selection = .single version) {d : Dataset} {es : Trace} (cancelled : Bool)
      (collects : Dataset.Collects library selection (.ok d) es) :
      Ends directory library selection (.ok (assembled directory d none [] cancelled))
        (es ++ [.save (linksFile directory d).1 (linksFile directory d).2 (.ok ()), .cancelled cancelled])
  | uncompared (plural : ∀ version, selection ≠ .single version) {d : Dataset} {e : Failure} {es fs : Trace}
      (collects : Dataset.Collects library selection (.ok d) es) (compares : Compares directory d (.error e) fs) :
      Ends directory library selection (.error e)
        (es ++ .save (linksFile directory d).1 (linksFile directory d).2 (.ok ()) :: fs)
  | compared (plural : ∀ version, selection ≠ .single version) {d : Dataset} {m : UsageMatrix}
      {candidates : List Candidate} {es fs : Trace} (cancelled : Bool)
      (collects : Dataset.Collects library selection (.ok d) es)
      (compares : Compares directory d (.ok (m, candidates)) fs) :
      Ends directory library selection (.ok (assembled directory d (some m) candidates cancelled))
        (es ++ .save (linksFile directory d).1 (linksFile directory d).2 (.ok ()) :: (fs ++ [.cancelled cancelled]))

theorem ofDataset_traced (directory : Path) (d : Dataset) (matrix : Option UsageMatrix) (candidates : List Candidate) :
    Traced s (ofDataset s.noted directory d matrix candidates) (ofDataset s directory d matrix candidates) fun a es =>
      ∃ cancelled, a = assembled directory d matrix candidates cancelled ∧ es = [.cancelled cancelled] :=
  Traced.call fun cancelled => Traced.pure ⟨cancelled, rfl, rfl⟩

theorem run_traced (root : Path) (library : Project) (selection : Selection) :
    Traced s (run s.noted root library selection) (run s root library selection)
      (Ends (libraryDirectory root library) library selection) := by
  refine (Dataset.collect_traced s library selection).bind fun collected es collects => ?_
  cases collected with
  | error e =>
    refine Traced.pure ?_
    rw [List.append_nil]
    exact .uncollected collects
  | ok d =>
    refine Traced.call fun saved => ?_
    cases saved with
    | error e => exact Traced.pure (.unsaved collects)
    | ok _ =>
      cases selection with
      | single version =>
        refine (ofDataset_traced s _ d none []).bind ?_
        rintro _ _ ⟨cancelled, rfl, rfl⟩
        exact Traced.pure (.single rfl cancelled collects)
      | all | pair first second =>
        refine (compare_traced s _ d).bind fun compared fs compares => ?_
        cases compared with
        | error e =>
          refine Traced.pure ?_
          rw [List.append_nil]
          exact .uncompared (by simp) collects compares
        | ok ranked =>
          refine (ofDataset_traced s _ d (some ranked.1) ranked.2).bind ?_
          rintro _ _ ⟨cancelled, rfl, rfl⟩
          exact Traced.pure (.compared (by simp) cancelled collects compares)

end Analysis
end MigrationMining
