import MigrationMining.DependencyGraph
import MigrationMining.Pipeline.Services
import MigrationMining.Repository.Lookup
import MigrationMining.Settings.Basic

/-! The services that settings ask for: where releases and clients are looked up, where archives come from, and how
code models are extracted. -/

namespace MigrationMining

inductive Source where
  | repository (repository : Repository)
  | graph (graph : DependencyGraph)

def Source.name : Source → String
  | .repository _ => "remote"
  | .graph _ => "local"

/-- A source, and the repository that archives are downloaded from. -/
structure Setup where
  source : Source
  archives : Repository

def NetworkSettings.policy (n : NetworkSettings) : RetryPolicy := ⟨n.backoff, n.maxAttempts⟩

/-- The client is made for a user agent and a timeout, or is not to be had. -/
def Setup.ofSettings (connect : String → Nat → Except String Client) (s : Settings) : Except FetchFailure Setup := do
  let client ← (connect s.network.userAgent s.network.timeout).mapError .setup
  let repository : Repository := ⟨s.source.repositoryUrl, s.source.usageUrl, ⟨client, s.network.policy⟩⟩
  let source : Source :=
    if s.source.kind = "local" then .graph ⟨s.source.graphDirectory⟩ else .repository repository
  return ⟨source, repository⟩

def Extractor.ofSettings (programs : Programs) (e : ExtractorSettings) : Except Failure Extractor :=
  Extractor.ofKind programs e.kind e.command e.arguments e.cacheDirectory

namespace Source

def releases : Source → Project → StateM World (List Coordinate)
  | repository r, p => r.releases p
  | graph g, p => World.reporting (g.releases p)

def clients : Source → Coordinate → StateM World (List Coordinate)
  | repository r, c => r.clients c
  | graph g, c => World.reporting (g.clients c)

def links : Source → Project → StateM World (List Link)
  | repository r, p => Services.linksByRelease r.releases r.clients p
  | graph g, p => World.reporting (g.links p)

def isListed : Source → Coordinate → StateM World Bool
  | repository r, c => r.isListed c
  | graph g, c => World.reporting (g.isListed c)

def dependencies : Source → Coordinate → StateM World (List Coordinate)
  | repository r, c => r.dependencies c
  | graph g, c => World.reporting (g.dependencies c)

end Source

/-- Services on the world that are never cancelled. -/
def Setup.services (s : Setup) (x : Extractor) : Services World where
  releases := s.source.releases
  clients := s.source.clients
  links := s.source.links
  isListed := s.source.isListed
  dependencies := s.source.dependencies
  archive := s.archives.archive
  declarations snapshot := World.extracting (x.declarations snapshot)
  callGraph snapshot := World.extracting (x.callGraph snapshot)
  save path text := fun w =>
    let (saved, w) := World.changeInSteps (·.save path text) w
    (saved.mapError (·.failure), w)
  report := World.report
  cancelled := pure false

end MigrationMining
