import MigrationMining.Pipeline.Download
import MigrationMining.Proofs.FirstMention
import MigrationMining.Proofs.OutputNames
import MigrationMining.Proofs.ServiceTrace

/-! Which archives a download asks for and what becomes of each of them: the queue in its order up to the place at which
the run is found cancelled, and one outcome for every archive that was asked for. -/

namespace MigrationMining

open Services

namespace Analysis

/-- The library releases and the client releases that an analysis points at, with repetitions: of a single version the version
and the clients of all links, whatever the scope; else the releases and clients of the candidates in the scope, and for all
candidates also the versions of the dataset before them. -/
inductive PointsAt (a : Analysis) : DownloadScope → List Coordinate → List Coordinate → Prop where
  | single {version : String} (only : a.dataset.selection = .single version) (scope : DownloadScope) :
      PointsAt a scope a.dataset.versions (a.dataset.links.map (·.client))
  | noCandidate (plural : ∀ version, a.dataset.selection ≠ .single version) (none : a.candidates = []) :
      PointsAt a .topCandidate [] []
  | topCandidate (plural : ∀ version, a.dataset.selection ≠ .single version) {c : Candidate} {others : List Candidate}
      (first : a.candidates = c :: others) :
      PointsAt a .topCandidate [c.older, c.newer] (c.clientsAtOlder ++ c.clientsAtNewer)
  | allCandidates (plural : ∀ version, a.dataset.selection ≠ .single version) :
      PointsAt a .allCandidates (a.dataset.versions ++ a.candidates.flatMap fun c => [c.older, c.newer])
        (a.candidates.flatMap fun c => c.clientsAtOlder ++ c.clientsAtNewer)

theorem pointsAt (a : Analysis) (scope : DownloadScope) :
    a.PointsAt scope (a.wantedLibraries scope) (a.wantedClients scope) := by
  unfold wantedLibraries wantedClients
  cases selected : a.dataset.selection with
  | single version => exact .single selected scope
  | all | pair =>
    have plural : ∀ version, a.dataset.selection ≠ .single version := by simp [selected]
    cases scope with
    | allCandidates => exact .allCandidates plural
    | topCandidate =>
      cases candidates : a.candidates with
      | nil => simpa [scopedCandidates, candidates] using PointsAt.noCandidate plural candidates
      | cons c others => simpa [scopedCandidates, candidates] using PointsAt.topCandidate plural candidates

theorem distinct_queue (a : Analysis) (scope : DownloadScope) : distinct (a.queue scope) =
    (distinct (a.wantedLibraries scope)).map (·, a.directory / DatasetFiles.librariesName) ++
      (distinct (a.wantedClients scope)).map (·, a.directory / DatasetFiles.clientsName) := by
  have apart : a.directory / DatasetFiles.clientsName ≠ a.directory / DatasetFiles.librariesName := by
    rw [Ne, Path.div_inj (by decide) (by decide)]
    decide
  rw [queue, distinct_append, distinct_map (by simp), distinct_map (by simp), List.filter_eq_self.2]
  intro entry mem
  obtain ⟨c, -, rfl⟩ := List.mem_map.1 mem
  simp [apart.symm]

end Analysis

namespace DownloadSummary

structure Request where
  release : Coordinate
  directory : Path
  answer : Option Path

def unavailableArchive (c : Coordinate) : Diagnostic := ⟨.notFound, c.text, "archive unavailable"⟩

namespace Request

def entry (q : Request) : Coordinate × Path := (q.release, q.directory)

def reporting (q : Request) : Trace :=
  match q.answer with
  | some _ => []
  | none => [.report (unavailableArchive q.release)]

def exchanges (q : Request) : Trace := .cancelled false :: .archive q.release q.directory q.answer :: q.reporting

end Request

def requests (es : Trace) : List Request := es.filterMap fun
  | .archive c dir answer => some ⟨c, dir, answer⟩
  | _ => none

theorem requests_append (es fs : Trace) : requests (es ++ fs) = requests es ++ requests fs := List.filterMap_append

def adding (summary : DownloadSummary) (asked : List Request) : DownloadSummary where
  fetched := summary.fetched ++ asked.filterMap (·.answer)
  unavailable := summary.unavailable ++ (asked.filter (·.answer.isNone)).map (·.release)

theorem adding_adding (summary : DownloadSummary) (asked later : List Request) :
    (summary.adding asked).adding later = summary.adding (asked ++ later) := by
  simp [adding, List.filterMap_append, List.filter_append]

/-- A run over a queue: the archives are asked for in turn until the run is found cancelled. -/
inductive AsksInTurn : List (Coordinate × Path) → List Request → Trace → Prop where
  | done : AsksInTurn [] [] []
  | cancelled (entry : Coordinate × Path) (rest : List (Coordinate × Path)) :
      AsksInTurn (entry :: rest) [] [.cancelled true]
  | next (q : Request) {rest : List (Coordinate × Path)} {asked : List Request} {es : Trace}
      (later : AsksInTurn rest asked es) : AsksInTurn (q.entry :: rest) (q :: asked) (q.exchanges ++ es)

section Specifications

variable {σ : Type} (s : Services σ)

theorem fetch_traced (c : Coordinate) (dir : Path) (summary : DownloadSummary) :
    Traced s (fetch s.noted c dir summary) (fetch s c dir summary) fun r es =>
      ∃ q : Request, q.entry = (c, dir) ∧ r = summary.adding [q] ∧ es = .archive c dir q.answer :: q.reporting := by
  refine Traced.call fun answer => ?_
  cases answer with
  | some path =>
    refine Traced.pure ⟨⟨c, dir, some path⟩, rfl, ?_, rfl⟩
    simp [adding]
  | none =>
    refine Traced.report (Traced.pure ⟨⟨c, dir, none⟩, rfl, ?_, rfl⟩)
    simp [adding]

theorem fetchAll_traced (seen : List (Coordinate × Path)) (summary : DownloadSummary) (queue : List (Coordinate × Path)) :
    Traced s (fetchAll s.noted seen summary queue) (fetchAll s seen summary queue) fun r es =>
      ∃ asked, AsksInTurn (fresh seen queue) asked es ∧ r = summary.adding asked := by
  induction queue generalizing seen summary with
  | nil => exact Traced.pure ⟨[], .done, by simp [adding]⟩
  | cons entry rest ih =>
    unfold fetchAll fresh
    by_cases old : entry ∈ seen
    · rw [if_pos old, if_pos old, if_pos old]
      exact ih seen summary
    · rw [if_neg old, if_neg old, if_neg old]
      refine Traced.call fun cancelled => ?_
      cases cancelled with
      | true => exact Traced.pure ⟨[], .cancelled entry _, by simp [adding]⟩
      | false =>
        refine (fetch_traced s entry.1 entry.2 summary).bind ?_
        rintro _ _ ⟨q, named, rfl, rfl⟩
        obtain rfl : q.entry = entry := named
        refine (ih (q.entry :: seen) (summary.adding [q])).mono ?_
        rintro _ es ⟨asked, asks, rfl⟩
        exact ⟨q :: asked, .next q asks, adding_adding summary [q] asked⟩

theorem run_traced (a : Analysis) (scope : DownloadScope) :
    Traced s (run s.noted a scope) (run s a scope) fun r es =>
      ∃ asked, AsksInTurn (distinct (a.queue scope)) asked es ∧ r = ({} : DownloadSummary).adding asked := by
  rw [distinct_eq_fresh]
  exact fetchAll_traced s [] {} (a.queue scope)

end Specifications

section Runs

variable {queue : List (Coordinate × Path)} {asked : List Request} {es : Trace}

theorem requests_exchanges (q : Request) : requests q.exchanges = [q] := by
  obtain ⟨c, dir, answer⟩ := q
  cases answer <;> rfl

theorem AsksInTurn.requests_eq (asks : AsksInTurn queue asked es) : requests es = asked := by
  induction asks with
  | done => rfl
  | cancelled entry rest => rfl
  | next q _ ih => rw [requests_append, requests_exchanges, ih, List.singleton_append]

theorem AsksInTurn.entries_prefix (asks : AsksInTurn queue asked es) : asked.map (·.entry) <+: queue := by
  induction asks with
  | done => exact List.prefix_rfl
  | cancelled entry rest => exact List.nil_prefix
  | next q _ ih => exact List.cons_prefix_cons.2 ⟨rfl, ih⟩

theorem AsksInTurn.entries_eq_iff (asks : AsksInTurn queue asked es) :
    asked.map (·.entry) = queue ↔ Exchange.cancelled true ∉ es := by
  induction asks with
  | done => simp
  | cancelled entry rest => simp
  | next q _ ih =>
    have undisturbed : Exchange.cancelled true ∉ q.exchanges := by
      obtain ⟨c, dir, answer⟩ := q
      cases answer <;> simp [Request.exchanges, Request.reporting]
    rw [List.map_cons, List.cons_inj_right, ih, List.mem_append, or_iff_right undisturbed]

theorem AsksInTurn.trace_eq (asks : AsksInTurn queue asked es) : es =
    asked.flatMap (·.exchanges) ++ if asked.length < queue.length then [.cancelled true] else [] := by
  induction asks with
  | done => rfl
  | cancelled entry rest => rfl
  | next q _ ih => simp [ih]

theorem reports_exchanges (q : Request) : q.exchanges.reports =
    ([q].filter (·.answer.isNone)).map fun q => unavailableArchive q.release := by
  obtain ⟨c, dir, answer⟩ := q
  cases answer <;> rfl

theorem AsksInTurn.reports_eq (asks : AsksInTurn queue asked es) :
    es.reports = (asked.filter (·.answer.isNone)).map fun q => unavailableArchive q.release := by
  induction asks with
  | done => rfl
  | cancelled entry rest => rfl
  | @next q _ asked _ _ ih =>
    rw [Trace.reports_append, reports_exchanges, ih, ← List.map_append, ← List.filter_append, List.singleton_append]

theorem length_outcomes (asked : List Request) :
    (asked.filterMap (·.answer)).length + (asked.filter (·.answer.isNone)).length = asked.length := by
  induction asked with
  | nil => rfl
  | cons q asked ih =>
    obtain ⟨c, dir, answer⟩ := q
    cases answer <;> simp <;> omega

end Runs

/-- A download asks for what the analysis points at, each archive once and in the order in which they are first mentioned,
libraries before clients: for all of them unless it is found cancelled, and else for the first of them. It is looked at
before each request and not for a repeated mention. Each archive that was asked for is fetched or unavailable, as it was
answered, and one diagnostic is reported for each that is unavailable and nothing else. -/
theorem run_asks_queue {σ : Type} (s : Services σ) (a : Analysis) (scope : DownloadScope) (w : σ) :
    let es := (run s.noted a scope (w, [])).2.2
    let r := (run s a scope w).1
    ∃ (libraries clients : List Coordinate) (queue : List (Coordinate × Path)), a.PointsAt scope libraries clients ∧
    (FirstMentions (libraries.map (·, a.directory / DatasetFiles.librariesName) ++
        clients.map (·, a.directory / DatasetFiles.clientsName)) queue ∧
      queue = (distinct libraries).map (·, a.directory / DatasetFiles.librariesName) ++
        (distinct clients).map (·, a.directory / DatasetFiles.clientsName)) ∧
    ((requests es).map (·.entry) <+: queue ∧ ((requests es).map (·.entry)).Nodup ∧
      ((requests es).map (·.entry) = queue ↔ Exchange.cancelled true ∉ es) ∧
      es = (requests es).flatMap (·.exchanges) ++
        if (requests es).length < queue.length then [.cancelled true] else []) ∧
    (r.fetched = (requests es).filterMap (·.answer) ∧
      r.unavailable = ((requests es).filter (·.answer.isNone)).map (·.release) ∧
      r.fetched.length + r.unavailable.length = (requests es).length) ∧
    es.reports = r.unavailable.map unavailableArchive := by
  intro es r
  obtain ⟨fs, noted, asked, asks, summary⟩ := (run_traced s a scope).notes w []
  have trace : es = fs := congrArg (·.2.2) noted
  have fetched : r.fetched = asked.filterMap (·.answer) := by
    simp only [r, summary, adding, List.nil_append]
  have unavailable : r.unavailable = (asked.filter (·.answer.isNone)).map (·.release) := by
    simp only [r, summary, adding, List.nil_append]
  have mentions : FirstMentions (a.queue scope) (distinct (a.queue scope)) := firstMentions_distinct _
  rw [trace, asks.requests_eq]
  refine ⟨_, _, _, a.pointsAt scope, ⟨mentions, a.distinct_queue scope⟩,
    ⟨asks.entries_prefix, ?_, asks.entries_eq_iff, asks.trace_eq⟩, ⟨fetched, unavailable, ?_⟩, ?_⟩
  · exact mentions.nodup.sublist asks.entries_prefix.sublist
  · rw [fetched, unavailable, List.length_map, length_outcomes]
  · rw [asks.reports_eq, unavailable, List.map_map]
    rfl

def overlappingCandidates : Analysis where
  dataset := ⟨⟨"g", "a"⟩, .all, [⟨"g", "a", "1"⟩, ⟨"g", "a", "2"⟩], []⟩
  matrix := none
  candidates := [⟨⟨"g", "a", "2"⟩, ⟨"g", "a", "3"⟩, 1, [⟨"x", "c", "1"⟩], [⟨"x", "c", "2"⟩]⟩,
    ⟨⟨"g", "a", "3"⟩, ⟨"g", "a", "1"⟩, 1, [⟨"x", "c", "2"⟩], [⟨"g", "a", "1"⟩]⟩]
  statistics := .compute [] [] []
  directory := ⟨"data"⟩
  cancelled := false

/-- Services that are cancelled at a question and have no archive of a third release. -/
def cancelledAt (question : Nat) : Services Nat where
  releases _ := pure []
  clients _ := pure []
  links _ := pure []
  isListed _ := pure true
  dependencies _ := pure []
  archive c directory := pure (if c.version = "3" then none else some (directory / c.text))
  declarations _ := pure (.ok ∅)
  callGraph _ := pure (.ok (.ofFacts []))
  save _ _ := pure (.ok ())
  report _ := pure ()
  cancelled := fun asked => (asked = question, asked + 1)

/-- Of the six archives that the candidates point at, five are asked for before the run is found cancelled; the releases that
are mentioned again in between are passed over. -/
theorem run_asks_queue_of_overlappingCandidates :
    let es := (run (cancelledAt 5).noted overlappingCandidates .allCandidates (0, [])).2.2
    let libraries : Path := ⟨"data/libraries"⟩
    let clients : Path := ⟨"data/clients"⟩
    (requests es).map (·.entry) <+: [(⟨"g", "a", "1"⟩, libraries), (⟨"g", "a", "2"⟩, libraries), (⟨"g", "a", "3"⟩, libraries),
      (⟨"x", "c", "1"⟩, clients), (⟨"x", "c", "2"⟩, clients), (⟨"g", "a", "1"⟩, clients)] ∧
    (requests es).length = 5 ∧
    (run (cancelledAt 5) overlappingCandidates .allCandidates 0).1.unavailable = [⟨"g", "a", "3"⟩] ∧
    es.reports = [unavailableArchive ⟨"g", "a", "3"⟩] := by
  intro es libraries clients
  obtain ⟨ls, cs, queue, points, ⟨-, whole⟩, ⟨before, -, -, -⟩, ⟨-, -, -⟩, reported⟩ :=
    run_asks_queue (cancelledAt 5) overlappingCandidates .allCandidates 0
  have missing : (run (cancelledAt 5) overlappingCandidates .allCandidates 0).1.unavailable = [⟨"g", "a", "3"⟩] := by
    decide +kernel
  rw [missing] at reported
  refine ⟨?_, by decide +kernel, missing, reported⟩
  cases points with
  | single only => cases only
  | allCandidates =>
    have distinctly : queue = [(⟨"g", "a", "1"⟩, libraries), (⟨"g", "a", "2"⟩, libraries), (⟨"g", "a", "3"⟩, libraries),
        (⟨"x", "c", "1"⟩, clients), (⟨"x", "c", "2"⟩, clients), (⟨"g", "a", "1"⟩, clients)] := by
      rw [whole]
      decide +kernel
    rwa [distinctly] at before

end DownloadSummary
end MigrationMining
