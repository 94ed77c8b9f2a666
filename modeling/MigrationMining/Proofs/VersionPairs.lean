import MigrationMining.Pipeline.Journal
import MigrationMining.Proofs.AnalysisTrace
import MigrationMining.Proofs.ClientMoves

/-! Two releases that are analysed by themselves have the candidate that they have in an analysis of all releases, if the
source always gives the same answers. -/

namespace MigrationMining

open Services

def linksOf (clients : Coordinate → List Coordinate) (versions : List Coordinate) : List Link :=
  versions.flatMap fun v => (clients v).map (⟨v, ·⟩)

section Links

variable {clients : Coordinate → List Coordinate} {versions : List Coordinate} {library : Coordinate}

theorem library_of_mem_linksOf {link : Link} (h : link ∈ linksOf clients versions) : link.library ∈ versions := by
  obtain ⟨v, listed, h⟩ := List.mem_flatMap.1 h
  obtain ⟨client, -, rfl⟩ := List.mem_map.1 h
  exact listed

theorem lastClient?_of_library (clients : List Coordinate) (v : Coordinate) (p : Project) :
    lastClient? (clients.map (⟨v, ·⟩)) library p =
      if v = library then clients.reverse.find? (·.project = p) else none := by
  rw [lastClient?, ← List.map_reverse, List.find?_map]
  by_cases h : v = library <;> simp [h, Function.comp_def]

theorem lastClient?_linksOf_of_notMem (h : library ∉ versions) (p : Project) :
    lastClient? (linksOf clients versions) library p = none := by
  rw [← Option.not_isSome_iff_eq_none, lastClient?_isSome]
  rintro ⟨link, listed, rfl, -⟩
  exact h (library_of_mem_linksOf listed)

/-- Which client has the last link to a release depends on the clients of that release alone, even if the release is
looked up several times. -/
theorem lastClient?_linksOf (listed : library ∈ versions) (p : Project) :
    lastClient? (linksOf clients versions) library p = (clients library).reverse.find? (·.project = p) := by
  induction versions with
  | nil => cases listed
  | cons v vs ih =>
    rw [linksOf, List.flatMap_cons, ← linksOf, lastClient?_append, lastClient?_of_library]
    by_cases later : library ∈ vs
    · rw [ih later]
      by_cases h : v = library <;> simp [h]
    · obtain rfl : library = v := (List.mem_cons.1 listed).resolve_right later
      simp [lastClient?_linksOf_of_notMem later]

end Links

namespace UsageMatrix

theorem build_linksOf (clients : Coordinate → List Coordinate) (versions : List Coordinate) :
    ∃ m, build versions (linksOf clients versions) = .ok m :=
  exists_build_iff.2 fun _ => library_of_mem_linksOf

theorem mem_clients_of_build {versions : List Coordinate} {links : List Link} {m : UsageMatrix}
    (built : build versions links = .ok m) {library c : Coordinate} {p : Project}
    (linked : lastClient? links library p = some c) : p ∈ m.clients := by
  obtain ⟨link, listed, rfl⟩ := mem_of_lastClient? linked
  obtain rfl := project_of_lastClient? linked
  exact ((records_of_build built).mem_clients _).2 ⟨link, listed, rfl⟩

end UsageMatrix

namespace Candidate

def exchanged (c : Candidate) : Candidate where
  older := c.newer
  newer := c.older
  migrated := c.migrated
  clientsAtOlder := c.clientsAtNewer
  clientsAtNewer := c.clientsAtOlder

section Between

variable {m m' : UsageMatrix} {clients clients' : ProjectSet} {older newer : Coordinate}

theorem filterMap_toList_congr {α : Type} {f : Project → Option α}
    (contributors : ∀ p, (f p).isSome → (p ∈ clients ↔ p ∈ clients')) :
    clients.toList.filterMap f = clients'.toList.filterMap f := by
  have contributing (xs : List Project) : xs.filterMap f = (xs.filter fun p => (f p).isSome).filterMap f := by
    rw [List.filterMap_filter]
    refine List.filterMap_congr fun p _ => ?_
    cases f p <;> rfl
  have ascending (set : ProjectSet) : (set.toList.filter fun p => (f p).isSome).Pairwise (compare · · = .lt) :=
    Std.ExtTreeSet.ordered_toList.filter _
  rw [contributing, contributing clients'.toList]
  congr 1
  refine Project.eq_of_ascending (ascending clients) (ascending clients') fun p => ?_
  simp only [List.mem_filter, Std.ExtTreeSet.mem_toList]
  exact and_congr_left fun moved => contributors p moved

theorem between_congr (same : ∀ p, move? m older newer p = move? m' older newer p)
    (users : ∀ p, (move? m older newer p).isSome → (p ∈ clients ↔ p ∈ clients')) :
    between m clients older newer = between m' clients' older newer := by
  have moves : clients.toList.filterMap (move? m older newer) = clients'.toList.filterMap (move? m' older newer) := by
    rw [← funext same]
    exact filterMap_toList_congr users
  simp only [between, moves]

theorem move?_swap (m : UsageMatrix) (older newer : Coordinate) (p : Project) :
    move? m newer older p = (move? m older newer p).map Prod.swap := by
  unfold move?
  cases m.get? older p with
  | none => cases m.get? newer p <;> rfl
  | some a =>
    cases m.get? newer p with
    | none => rfl
    | some b => by_cases h : a = b <;> simp [h, eq_comm]

theorem exchanged_between (m : UsageMatrix) (clients : ProjectSet) (older newer : Coordinate) :
    (between m clients older newer).exchanged = between m clients newer older := by
  have moves : clients.toList.filterMap (move? m newer older) =
      (clients.toList.filterMap (move? m older newer)).map Prod.swap := by
    rw [List.map_filterMap, ← funext (move?_swap m older newer)]
  simp [exchanged, between, moves, Function.comp_def]

end Between

end Candidate

variable {σ : Type} {s : Services σ} {a : Answers}

/-- Releases, clients and whether a release is listed are answered alike at all times, and there is no shorter way to
the links of a project than to look them up release by release. -/
structure Services.FixedSource (s : Services σ) (a : Answers) : Prop where
  releases : ∀ {p found w w'}, s.releases p w = (found, w') → found = a.releases p
  clients : ∀ {c found w w'}, s.clients c w = (found, w') → found = a.clients c
  isListed : ∀ {c found w w'}, s.isListed c w = (found, w') → found = a.isListed c
  links : s.links = linksByRelease s.releases s.clients

theorem Journal.fixedSource (h : a.links = none) : (Journal.services a).FixedSource a where
  releases asked := (congrArg Prod.fst asked).symm
  clients asked := (congrArg Prod.fst asked).symm
  isListed asked := (congrArg Prod.fst asked).symm
  links := by
    funext p
    simp only [Journal.services, h]

/-- What a fixed source answers; the other services may answer anything. -/
def Exchange.AgreesWith (a : Answers) : Exchange → Prop
  | .releases p found => found = a.releases p
  | .clients c found => found = a.clients c
  | .links p found => found = linksOf a.clients (a.releases p)
  | .isListed c found => found = a.isListed c
  | _ => True

namespace Services

variable {w w' : σ}

theorem FixedSource.links_of_linksTo (source : s.FixedSource a) {versions : List Coordinate} {links : List Link}
    (h : linksTo s.clients versions w = (links, w')) : links = linksOf a.clients versions := by
  induction versions generalizing w links with
  | nil =>
    cases h
    rfl
  | cons v vs ih =>
    obtain ⟨found, u, asked, h⟩ := bind_run_eq_iff.1 h
    obtain ⟨rest, _, later, h⟩ := bind_run_eq_iff.1 h
    cases h
    rw [ih later, source.clients asked]
    rfl

theorem FixedSource.agreesWith (source : s.FixedSource a) {e : Exchange} (step : s.Step w e w') : e.AgreesWith a := by
  cases e with
  | releases p found => exact source.releases step
  | clients c found => exact source.clients step
  | links p found =>
    have asked : linksByRelease s.releases s.clients p w = (found, w') := by rwa [← source.links]
    obtain ⟨releases, u, listed, asked⟩ := bind_run_eq_iff.1 asked
    exact (source.links_of_linksTo asked).trans (by rw [source.releases listed])
  | isListed c found => exact source.isListed step
  | dependencies | archive | declarations | callGraph | save | report | cancelled => trivial

theorem FixedSource.agreesWith_of_steps (source : s.FixedSource a) {es : Trace} (h : s.Steps w es w') :
    ∀ e ∈ es, e.AgreesWith a := by
  intro e mem
  obtain ⟨u, u', step⟩ := h.step_of_mem mem
  exact source.agreesWith step

theorem ComparisonsRun.all_made {n made : Nat} {es : Trace} (h : ComparisonsRun n made es)
    (uncancelled : Exchange.cancelled true ∉ es) : made = n := by
  induction h with
  | done => rfl
  | cancelled => simp at uncancelled
  | next _ ih => rw [ih (fun later => uncancelled (List.mem_cons_of_mem _ later))]

end Services

namespace Dataset

variable {library : Project} {versions : List Coordinate} {es : Trace}

theorem ListingRun.eq_none {unlisted : Option Coordinate} (h : ListingRun versions unlisted es)
    (agrees : ∀ e ∈ es, e.AgreesWith a) (listed : ∀ v ∈ versions, a.isListed v = true) : unlisted = none := by
  induction h with
  | done => rfl
  | unlisted c rest =>
    have answer : false = a.isListed c := agrees _ (List.mem_singleton_self _)
    rw [listed c List.mem_cons_self] at answer
    cases answer
  | next c _ ih => exact ih (List.forall_mem_cons.1 agrees).2 (List.forall_mem_cons.1 listed).2

theorem LinksRun.eq_linksOf {links : List Link} (h : LinksRun versions links es)
    (agrees : ∀ e ∈ es, e.AgreesWith a) (uncancelled : Exchange.cancelled true ∉ es) :
    links = linksOf a.clients versions := by
  induction h with
  | done => rfl
  | cancelled => simp at uncancelled
  | next v found _ ih =>
    simp only [List.forall_mem_cons] at agrees
    simp only [List.mem_cons, not_or] at uncancelled
    rw [ih agrees.2.2 uncancelled.2.2, agrees.2.1]
    rfl

def chosen (a : Answers) (library : Project) (selection : Selection) : List Coordinate :=
  (selection.named? library).getD (a.releases library)

/-- An uncancelled collection from a fixed source, all of whose named releases are listed, has all links to them. Of all
releases no link is dropped, since they are looked up by the same answers twice. -/
theorem Collects.eq_ok {selection : Selection} {result : Except Failure Dataset}
    (h : Collects library selection result es) (agrees : ∀ e ∈ es, e.AgreesWith a)
    (uncancelled : Exchange.cancelled true ∉ es)
    (listed : ∀ versions, selection.named? library = some versions → ∀ v ∈ versions, a.isListed v = true) :
    result = .ok ⟨library, selection, chosen a library selection, linksOf a.clients (chosen a library selection)⟩ := by
  cases h with
  | all versions found =>
    simp only [List.forall_mem_cons] at agrees
    obtain rfl : versions = a.releases library := agrees.1
    have links : found = linksOf a.clients (a.releases library) := agrees.2.2.1
    have kept : found.filter (·.library ∈ a.releases library) = found := by
      rw [List.filter_eq_self, links]
      exact fun link linked => by simpa using library_of_mem_linksOf linked
    rw [kept, links]
    rfl
  | cancelled => simp at uncancelled
  | unlisted named listing =>
    cases listing.eq_none agrees (listed _ named)
  | listed named listing linking =>
    rw [List.mem_append, not_or] at uncancelled
    rw [linking.eq_linksOf (fun e mem => agrees e (List.mem_append_right _ mem)) uncancelled.2]
    simp [chosen, named]

end Dataset

namespace Candidate

theorem rankUntil_all (m : UsageMatrix) :
    rankUntil ((orderedPairs m.versions).length ≤ ·) m.versions m m.clients = rank m := by
  have total := length_orderedPairs m.versions
  have stops : StopsAt (fun i => decide ((orderedPairs m.versions).length ≤ i))
      (m.versions.length * (m.versions.length - 1) / 2) (m.versions.length * (m.versions.length - 1) / 2) := by
    refine ⟨le_rfl, fun i hi => ?_, fun h => absurd h (lt_irrefl _)⟩
    simpa [total] using hi
  rw [rankUntil_eq _ _ _ stops, rank, rankUntil_eq _ _ _ (.never _)]

theorem rank_of_two {m : UsageMatrix} {older newer : Coordinate} (versions : m.versions = [older, newer]) :
    rank m = [between m m.clients older newer] := by
  simp [rank, rankUntil, versions, orderedPairs, byMigrated]

theorem ofPositions_mem_rank (m : UsageMatrix) {i j : Fin m.versions.length} (h : i < j) :
    ofPositions m.versions m m.clients (i, j) ∈ rank m := by
  rw [rank, rankUntil_eq _ _ _ (.never _), byMigrated, List.mem_mergeSort, ← length_positionPairs, List.take_length]
  exact List.mem_map.2 ⟨(i, j), mem_positionPairs.2 h, rfl⟩

theorem between_of_linksOf {clients : Coordinate → List Coordinate} {versions versions' : List Coordinate}
    {m m' : UsageMatrix} (built : UsageMatrix.build versions (linksOf clients versions) = .ok m)
    (built' : UsageMatrix.build versions' (linksOf clients versions') = .ok m') {older newer : Coordinate}
    (first : older ∈ versions ∧ older ∈ versions') (second : newer ∈ versions ∧ newer ∈ versions') :
    between m m.clients older newer = between m' m'.clients older newer := by
  have cell {library : Coordinate} (listed : library ∈ versions ∧ library ∈ versions') (p : Project) :
      m.get? library p = m'.get? library p := by
    rw [UsageMatrix.get?_of_build built, UsageMatrix.get?_of_build built', lastClient?_linksOf listed.1,
      lastClient?_linksOf listed.2]
  have same (p : Project) : move? m older newer p = move? m' older newer p := by
    rw [move?, move?, cell first, cell second]
  refine between_congr same fun p moved => ?_
  obtain ⟨⟨x, y⟩, moves⟩ := Option.isSome_iff_exists.1 moved
  have linked := ((move?_of_build built).1 moves).1
  rw [same] at moves
  have linked' := ((move?_of_build built').1 moves).1
  exact iff_of_true (UsageMatrix.mem_clients_of_build built linked) (UsageMatrix.mem_clients_of_build built' linked')

end Candidate

namespace Analysis

variable {root directory : Path} {library : Project} {selection : Selection} {es : Trace}

theorem SavesRun.refused_mem {files : List (Path × String)} {e : Failure} (h : SavesRun files (.error e) es) :
    ∃ path text, Exchange.save path text (.error e) ∈ es := by
  generalize failed : (Except.error e : Except Failure Unit) = saved at h
  induction h with
  | done => cases failed
  | refused path text rest e =>
    cases failed
    exact ⟨path, text, List.mem_singleton_self _⟩
  | next _ _ _ ih =>
    obtain ⟨path, text, mem⟩ := ih failed
    exact ⟨path, text, List.mem_cons_of_mem _ mem⟩

theorem Compares.ranked {d : Dataset} {m : UsageMatrix} {result : Except Failure (UsageMatrix × List Candidate)}
    (h : Compares directory d result es) (built : UsageMatrix.build d.versions d.links = .ok m)
    (uncancelled : Exchange.cancelled true ∉ es) :
    result = .ok (m, Candidate.rank m) ∨ ∃ e path text, result = .error e ∧ Exchange.save path text (.error e) ∈ es := by
  cases h with
  | stray unbuilt =>
    rw [built] at unbuilt
    cases unbuilt
  | @compared m' made saved es fs built' comparisons saving =>
    obtain rfl : m = m' := Except.ok.inj (built.symm.trans built')
    rw [List.mem_append, not_or] at uncancelled
    obtain rfl := comparisons.all_made uncancelled.1
    cases saved with
    | ok _ => exact .inl (by rw [Candidate.rankUntil_all]; rfl)
    | error e =>
      obtain ⟨path, text, mem⟩ := saving.refused_mem
      exact .inr ⟨e, path, text, rfl, List.mem_append_right _ mem⟩

/-- An uncancelled analysis of several releases of a fixed source ranks all their pairs, unless a file cannot be saved. -/
theorem Ends.ranked {result : Except Failure Analysis} (h : Ends directory library selection result es)
    (plural : ∀ version, selection ≠ .single version) (agrees : ∀ e ∈ es, e.AgreesWith a)
    (uncancelled : Exchange.cancelled true ∉ es)
    (listed : ∀ versions, selection.named? library = some versions → ∀ v ∈ versions, a.isListed v = true) :
    (∀ e, result = .error e → ∃ path text, Exchange.save path text (.error e) ∈ es) ∧
    ∀ x, result = .ok x → ∃ m, x.matrix = some m ∧ x.candidates = Candidate.rank m ∧
      UsageMatrix.build (Dataset.chosen a library selection)
        (linksOf a.clients (Dataset.chosen a library selection)) = .ok m := by
  obtain ⟨m, built⟩ := UsageMatrix.build_linksOf a.clients (Dataset.chosen a library selection)
  cases h with
  | uncollected collects => cases collects.eq_ok agrees uncancelled listed
  | unsaved collects =>
    refine ⟨?_, by simp⟩
    rintro _ ⟨⟩
    exact ⟨_, _, List.mem_append_right _ (List.mem_singleton_self _)⟩
  | single only => exact absurd only (plural _)
  | @uncompared _ d e es fs collects compares =>
    simp only [List.mem_append, List.mem_cons, not_or] at uncancelled
    obtain rfl := Except.ok.inj <|
      collects.eq_ok (fun e mem => agrees e (List.mem_append_left _ mem)) uncancelled.1 listed
    refine ⟨?_, by simp⟩
    rintro _ ⟨⟩
    rcases compares.ranked built uncancelled.2.2 with compared | ⟨e, path, text, compared, refused⟩
    · cases compared
    · cases compared
      exact ⟨path, text, List.mem_append_right _ (List.mem_cons_of_mem _ refused)⟩
  | @compared _ d m' candidates es fs cancelled collects compares =>
    simp only [List.mem_append, List.mem_cons, not_or] at uncancelled
    obtain rfl := Except.ok.inj <|
      collects.eq_ok (fun e mem => agrees e (List.mem_append_left _ mem)) uncancelled.1 listed
    refine ⟨by simp, ?_⟩
    rintro _ ⟨⟩
    rcases compares.ranked built uncancelled.2.2.1 with compared | ⟨e, path, text, compared, -⟩
    · cases compared
      exact ⟨m, rfl, rfl, built⟩
    · cases compared

section Runs

variable {s : Services σ} {w : σ}

theorem ranked_of_run (source : s.FixedSource a) (plural : ∀ version, selection ≠ .single version)
    (uncancelled : Exchange.cancelled true ∉ (run s.noted root library selection (w, [])).2.2)
    (listed : ∀ versions, selection.named? library = some versions → ∀ v ∈ versions, a.isListed v = true) :
    (∀ e, (run s root library selection w).1 = .error e →
      ∃ path text, Exchange.save path text (.error e) ∈ (run s.noted root library selection (w, [])).2.2) ∧
    ∀ x, (run s root library selection w).1 = .ok x → ∃ m, x.matrix = some m ∧ x.candidates = Candidate.rank m ∧
      UsageMatrix.build (Dataset.chosen a library selection)
        (linksOf a.clients (Dataset.chosen a library selection)) = .ok m := by
  obtain ⟨es, noted, ends, steps⟩ := run_traced s root library selection w
  rw [noted, List.nil_append] at uncancelled ⊢
  exact ends.ranked plural (source.agreesWith_of_steps steps) uncancelled listed

/-- With fixed answers an analysis of two listed releases has one candidate: the one that an analysis of all releases
has for the positions of the two, with its sides exchanged if the second release stands first. Either analysis fails
only if one of its files cannot be saved. -/
theorem pair_candidate_of_all_releases (source : s.FixedSource a) (root : Path) {library : Project}
    {first second : String} (exist : a.isListed (library.release first) ∧ a.isListed (library.release second))
    (w w' : σ) (uncancelled : Exchange.cancelled true ∉ (run s.noted root library .all (w, [])).2.2)
    (uncancelled' : Exchange.cancelled true ∉ (run s.noted root library (.pair first second) (w', [])).2.2) :
    (∀ e, (run s root library .all w).1 = .error e →
      ∃ path text, Exchange.save path text (.error e) ∈ (run s.noted root library .all (w, [])).2.2) ∧
    (∀ e, (run s root library (.pair first second) w').1 = .error e → ∃ path text,
      Exchange.save path text (.error e) ∈ (run s.noted root library (.pair first second) (w', [])).2.2) ∧
    ∀ whole part, (run s root library .all w).1 = .ok whole →
      (run s root library (.pair first second) w').1 = .ok part →
      ∃ m, whole.matrix = some m ∧ whole.candidates = Candidate.rank m ∧ m.versions = a.releases library ∧
        ∀ i j : Fin m.versions.length,
          m.versions[i] = library.release first → m.versions[j] = library.release second →
          (i < j → Candidate.ofPositions m.versions m m.clients (i, j) ∈ whole.candidates ∧
            part.candidates = [Candidate.ofPositions m.versions m m.clients (i, j)]) ∧
          (j < i → Candidate.ofPositions m.versions m m.clients (j, i) ∈ whole.candidates ∧
            part.candidates = [(Candidate.ofPositions m.versions m m.clients (j, i)).exchanged]) := by
  have named : ∀ versions, (Selection.pair first second).named? library = some versions →
      ∀ v ∈ versions, a.isListed v = true := by
    rintro _ ⟨⟩
    simpa using exist
  obtain ⟨allSaved, all⟩ := ranked_of_run source (by simp) uncancelled (by simp [Selection.named?])
  obtain ⟨pairSaved, pair⟩ := ranked_of_run source (by simp) uncancelled' named
  refine ⟨allSaved, pairSaved, fun whole part done done' => ?_⟩
  obtain ⟨m, matrix, ranked, built⟩ := all whole done
  obtain ⟨m', -, ranked', built'⟩ := pair part done'
  have versions : m.versions = a.releases library := by
    rw [UsageMatrix.eq_of_build built]
    rfl
  have only : part.candidates = [Candidate.between m' m'.clients (library.release first) (library.release second)] := by
    rw [ranked', Candidate.rank_of_two]
    rw [UsageMatrix.eq_of_build built']
    rfl
  refine ⟨m, matrix, ranked, versions, fun i j at_first at_second => ?_⟩
  have listed {k : Fin m.versions.length} {v : Coordinate} (h : m.versions[k] = v) : v ∈ a.releases library := by
    rw [← h, ← versions]
    exact List.getElem_mem _
  have same := Candidate.between_of_linksOf built built' ⟨listed at_first, by simp [Dataset.chosen, Selection.named?]⟩
    ⟨listed at_second, by simp [Dataset.chosen, Selection.named?]⟩
  refine ⟨fun before => ?_, fun after => ?_⟩
  · rw [ranked]
    exact ⟨Candidate.ofPositions_mem_rank m before, by rw [only, ← same, Candidate.ofPositions, at_first, at_second]⟩
  · rw [ranked]
    refine ⟨Candidate.ofPositions_mem_rank m after, ?_⟩
    rw [only, ← same, Candidate.ofPositions, Candidate.exchanged_between, at_first, at_second]

end Runs

def skippedRelease : Answers where
  releases p := [p.release "1.0", p.release "2.0", p.release "3.0"]
  clients c := if c.version = "1.0" then [⟨"x", "c", "1"⟩] else if c.version = "3.0" then [⟨"x", "c", "2"⟩] else []
  links := none
  isListed _ := true
  dependencies _ := []
  archive _ _ := none
  declarations _ := .ok ∅
  callGraph _ := .ok (CallGraph.ofFacts [])

def skippingServices : Services Journal := Journal.services skippedRelease

theorem fixedSource_skippingServices : skippingServices.FixedSource skippedRelease := Journal.fixedSource rfl

/-- Asked for with the newer release first, the two releases have their candidate with its sides exchanged. -/
theorem pair_candidate_of_newer_release_first :
    ∃ whole part, (run skippingServices ⟨"data"⟩ ⟨"g", "a"⟩ .all {}).1 = .ok whole ∧
      (run skippingServices ⟨"data"⟩ ⟨"g", "a"⟩ (.pair "3.0" "1.0") {}).1 = .ok part ∧
      part.candidates = [⟨⟨"g", "a", "3.0"⟩, ⟨"g", "a", "1.0"⟩, 1, [⟨"x", "c", "2"⟩], [⟨"x", "c", "1"⟩]⟩] ∧
      ∃ c ∈ whole.candidates, part.candidates = [c.exchanged] := by
  have goesOn : (run skippingServices.noted ⟨"data"⟩ ⟨"g", "a"⟩ .all ({}, [])).2.2.any Exchange.refuses = false := by
    decide +kernel
  have goesOn' : (run skippingServices.noted ⟨"data"⟩ ⟨"g", "a"⟩ (.pair "3.0" "1.0") ({}, [])).2.2.any
      Exchange.refuses = false := by decide +kernel
  have exchanged : (run skippingServices ⟨"data"⟩ ⟨"g", "a"⟩ (.pair "3.0" "1.0") {}).1.toOption.map (·.candidates) =
      some [⟨⟨"g", "a", "3.0"⟩, ⟨"g", "a", "1.0"⟩, 1, [⟨"x", "c", "2"⟩], [⟨"x", "c", "1"⟩]⟩] := by decide +kernel
  have exist : skippedRelease.isListed (Project.release ⟨"g", "a"⟩ "3.0") ∧
      skippedRelease.isListed (Project.release ⟨"g", "a"⟩ "1.0") := ⟨rfl, rfl⟩
  obtain ⟨saved, saved', same⟩ := pair_candidate_of_all_releases fixedSource_skippingServices ⟨"data"⟩ exist {} {}
    (fun h => List.any_eq_false.mp goesOn _ h rfl) (fun h => List.any_eq_false.mp goesOn' _ h rfl)
  have finished {selection : Selection} (goesOn : (run skippingServices.noted ⟨"data"⟩ ⟨"g", "a"⟩ selection
        ({}, [])).2.2.any Exchange.refuses = false)
      (saved : ∀ e, (run skippingServices ⟨"data"⟩ ⟨"g", "a"⟩ selection {}).1 = .error e → ∃ path text,
        Exchange.save path text (.error e) ∈
          (run skippingServices.noted ⟨"data"⟩ ⟨"g", "a"⟩ selection ({}, [])).2.2) :
      ∃ x, (run skippingServices ⟨"data"⟩ ⟨"g", "a"⟩ selection {}).1 = .ok x := by
    cases ran : (run skippingServices ⟨"data"⟩ ⟨"g", "a"⟩ selection {}).1 with
    | error e =>
      obtain ⟨path, text, h⟩ := saved e ran
      exact absurd rfl (List.any_eq_false.mp goesOn _ h)
    | ok x => exact ⟨x, rfl⟩
  obtain ⟨whole, ran⟩ := finished goesOn saved
  obtain ⟨part, ran'⟩ := finished goesOn' saved'
  obtain ⟨m, -, -, versions, candidates⟩ := same whole part ran ran'
  rw [ran'] at exchanged
  have three : m.versions.length = 3 := by
    rw [versions]
    rfl
  have at_third : m.versions[(⟨2, by omega⟩ : Fin m.versions.length)] = Project.release ⟨"g", "a"⟩ "3.0" := by
    simp [versions, skippedRelease]
  have at_first : m.versions[(⟨0, by omega⟩ : Fin m.versions.length)] = Project.release ⟨"g", "a"⟩ "1.0" := by
    simp [versions, skippedRelease]
  obtain ⟨listed, only⟩ := (candidates _ _ at_third at_first).2 (by simp [Fin.lt_def])
  exact ⟨whole, part, ran, ran', Option.some.inj exchanged, _, listed, only⟩

end Analysis
end MigrationMining
