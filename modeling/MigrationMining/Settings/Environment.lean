import MigrationMining.Settings.Basic
import MigrationMining.Text.Blank
import MigrationMining.Text.Number

/-! Settings from environment variables. -/

namespace MigrationMining

/-- Variables and their values; of several with one name the first counts. -/
abbrev Environment := List (String × String)

def Environment.value? (env : Environment) (name : String) : Option String := (env.find? (·.1 = name)).map (·.2)

inductive Override where
  | source
  | repositoryUrl
  | usageUrl
  | graphDirectory
  | repositoryRate
  | usageRate
  | backoff
  | datasetPath
  | workers
  | extractor
  | extractorCommand
  | cacheDirectory
  | logLevel
  deriving DecidableEq

namespace Override

def all : List Override := [
  .source, .repositoryUrl, .usageUrl, .graphDirectory, .repositoryRate, .usageRate, .backoff, .datasetPath, .workers,
  .extractor, .extractorCommand, .cacheDirectory, .logLevel]

theorem mem_all (o : Override) : o ∈ all := by cases o <;> simp [all]

def variableName : Override → String
  | .source => "DEPSHIFT_SOURCE"
  | .repositoryUrl => "DEPSHIFT_REPOSITORY_URL"
  | .usageUrl => "DEPSHIFT_USAGE_URL"
  | .graphDirectory => "DEPSHIFT_LOCAL_DATASET"
  | .repositoryRate => "DEPSHIFT_REPOSITORY_QPS"
  | .usageRate => "DEPSHIFT_SCRAPE_QPS"
  | .backoff => "DEPSHIFT_RETRY_BACKOFF_SECS"
  | .datasetPath => "DEPSHIFT_DATASET_PATH"
  | .workers => "DEPSHIFT_DIFF_CONCURRENCY"
  | .extractor => "DEPSHIFT_EXTRACTOR"
  | .extractorCommand => "DEPSHIFT_EXTRACTOR_COMMAND"
  | .cacheDirectory => "DEPSHIFT_CACHE_DIR"
  | .logLevel => "RUST_LOG"

def number? (bits : Nat) (text : String) : Option Nat := Text.number? bits (Text.trim text.toList)

/-- Sets what the variable overrides; a number that cannot be read changes nothing. -/
def apply (o : Override) (value : String) (s : Settings) : Settings :=
  match o with
  | .source => { s with source.kind := value }
  | .repositoryUrl => { s with source.repositoryUrl := value }
  | .usageUrl => { s with source.usageUrl := value }
  | .graphDirectory => { s with source.graphDirectory := ⟨value⟩ }
  | .repositoryRate => { s with network.repositoryRate := (number? 32 value).getD s.network.repositoryRate }
  | .usageRate => { s with network.usageRate := (number? 32 value).getD s.network.usageRate }
  | .backoff => { s with network.backoff := (number? 64 value).getD s.network.backoff }
  | .datasetPath => { s with analysis.datasetPath := ⟨value⟩ }
  | .workers => { s with analysis.workers := (number? 64 value).getD s.analysis.workers }
  | .extractor => { s with extractor.kind := value }
  | .extractorCommand => { s with extractor.command := some value }
  | .cacheDirectory => { s with extractor.cacheDirectory := ⟨value⟩ }
  | .logLevel => { s with logging.level := value }

end Override

def Settings.override (s : Settings) (env : Environment) : Settings :=
  Override.all.foldl (fun s o =>
    match env.value? o.variableName with
    | some value => o.apply value s
    | none => s) s

end MigrationMining
