import MigrationMining.Json.Basic
import MigrationMining.Path

/-! The settings of a run and their defaults. -/

namespace MigrationMining

structure SourceSettings where
  kind : String := "remote"
  repositoryUrl : String := "https://repo1.maven.org/maven2"
  usageUrl : String := "https://mvnrepository.com"
  graphDirectory : Path := ⟨"dependency-graph"⟩
  deriving DecidableEq

structure NetworkSettings where
  repositoryRate : Nat := 4
  usageRate : Nat := 4
  backoff : Nat := 30
  maxAttempts : Option Nat := none
  timeout : Nat := 30
  userAgent : String := "depshift/0.1.0"
  deriving DecidableEq

structure AnalysisSettings where
  datasetPath : Path := ⟨"dataset"⟩
  topCandidates : Nat := 5
  workers : Nat := 4
  focusThreshold : Nat := 8
  deriving DecidableEq

structure ExtractorSettings where
  kind : String := "facts"
  command : Option String := none
  arguments : List String := []
  cacheDirectory : Path := ⟨".depshift-cache"⟩
  deriving DecidableEq

structure LoggingSettings where
  level : String := "info"
  format : String := "pretty"
  deriving DecidableEq

structure Settings where
  source : SourceSettings := {}
  network : NetworkSettings := {}
  analysis : AnalysisSettings := {}
  extractor : ExtractorSettings := {}
  logging : LoggingSettings := {}
  deriving DecidableEq

structure MiningOptions where
  datasetPath : Path
  workers : Nat
  topCandidates : Nat
  deriving DecidableEq

/-- There is at least one worker. -/
def AnalysisSettings.options (a : AnalysisSettings) : MiningOptions := ⟨a.datasetPath, max a.workers 1, a.topCandidates⟩

namespace Settings

def sourceNames : List String := ["kind", "repository_url", "usage_url", "local_dataset_dir"]

def networkNames : List String :=
  ["repository_qps", "scrape_qps", "retry_backoff_secs", "max_attempts", "timeout_secs", "user_agent"]

def analysisNames : List String := ["dataset_path", "top_candidates", "diff_concurrency", "focus_threshold"]

def extractorNames : List String := ["kind", "command", "args", "cache_dir"]

def loggingNames : List String := ["level", "format"]

def sectionNames : List String := ["source", "network", "analysis", "extractor", "logging"]

def optional {α : Type} (f : α → Json) : Option α → Json
  | some a => f a
  | none => .null

def values (s : Settings) : List (List Json) := [
  [.string s.source.kind, .string s.source.repositoryUrl, .string s.source.usageUrl,
    .string s.source.graphDirectory.text],
  [.nat s.network.repositoryRate, .nat s.network.usageRate, .nat s.network.backoff,
    optional .nat s.network.maxAttempts, .nat s.network.timeout, .string s.network.userAgent],
  [.string s.analysis.datasetPath.text, .nat s.analysis.topCandidates, .nat s.analysis.workers,
    .nat s.analysis.focusThreshold],
  [.string s.extractor.kind, optional .string s.extractor.command, .strings s.extractor.arguments,
    .string s.extractor.cacheDirectory.text],
  [.string s.logging.level, .string s.logging.format]]

def fieldNames : List (List String) := [sourceNames, networkNames, analysisNames, extractorNames, loggingNames]

def sections (s : Settings) : List (String × List (String × Json)) :=
  sectionNames.zip ((fieldNames.zip s.values).map fun (names, values) => names.zip values)

def toJson (s : Settings) : Json := .object (s.sections.map fun (name, members) => (name, .object members))

end Settings

end MigrationMining
