import MigrationMining.Failure
import MigrationMining.Settings.Basic

/-! Which settings are valid, and why settings cannot be had. -/

namespace MigrationMining

inductive InvalidSetting where
  | sourceKind (kind : String)
  | noCommand
  | extractorKind (kind : String)
  | zeroRate
  | zeroWorkers
  | zeroAttempts
  | logLevel (level : String)
  | logFormat (format : String)
  deriving DecidableEq

def InvalidSetting.message : InvalidSetting → String
  | .sourceKind kind => "Invalid source kind: " ++ kind ++ ". Must be one of: remote, local"
  | .noCommand => "extractor.command is required when extractor.kind = \"command\""
  | .extractorKind kind => "Invalid extractor kind: " ++ kind ++ ". Must be one of: facts, command"
  | .zeroRate => "repository_qps and scrape_qps must be greater than zero"
  | .zeroWorkers => "diff_concurrency must be greater than zero"
  | .zeroAttempts => "max_attempts must be at least 1 when set"
  | .logLevel level => "Invalid log level: " ++ level ++ ". Must be one of: off, trace, debug, info, warn, error"
  | .logFormat format => "Invalid log format: " ++ format ++ ". Must be one of: pretty, json, compact"

inductive SettingsFailure where
  | notFound (path : Path)
  | unreadable (cause : FileFailure)
  | malformed
  | invalid (reason : InvalidSetting)
  deriving DecidableEq

namespace SettingsFailure

def message : SettingsFailure → String
  | .notFound path => "Config file not found: " ++ path.text
  | .unreadable cause => "Failed to read config: " ++ cause.message
  | .malformed => "Failed to parse config: not a document of settings"
  | .invalid reason => "Invalid configuration: " ++ reason.message

def failure (f : SettingsFailure) : Failure := .configuration f.message

end SettingsFailure

namespace Settings

def sourceKinds : List String := ["remote", "local"]

def levels : List String := ["off", "trace", "debug", "info", "warn", "error"]

def formats : List String := ["pretty", "json", "compact"]

def lowerCase (s : String) : String := String.ofList (s.toList.map Char.toLower)

/-- A level, in any case; what has an equals sign or a comma is a filter and taken as it is. -/
def isLevel (level : String) : Bool :=
  level.toList.contains '=' || level.toList.contains ',' || lowerCase level ∈ levels

def checkExtractor (e : ExtractorSettings) : Except InvalidSetting Unit :=
  if e.kind = "facts" then .ok ()
  else if e.kind = "command" then
    if e.command.all (·.isEmpty) then .error .noCommand else .ok ()
  else .error (.extractorKind e.kind)

def check (s : Settings) : Except InvalidSetting Unit := do
  if s.source.kind ∉ sourceKinds then throw (.sourceKind s.source.kind)
  checkExtractor s.extractor
  if s.network.repositoryRate = 0 ∨ s.network.usageRate = 0 then throw .zeroRate
  if s.analysis.workers = 0 then throw .zeroWorkers
  if s.network.maxAttempts = some 0 then throw .zeroAttempts
  if !isLevel s.logging.level then throw (.logLevel s.logging.level)
  if s.logging.format ∉ formats then throw (.logFormat s.logging.format)

end Settings

end MigrationMining
