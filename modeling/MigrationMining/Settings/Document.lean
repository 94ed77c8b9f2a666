import MigrationMining.Json.Printer
import MigrationMining.Settings.Basic
import MigrationMining.Toml.Basic

/-! Settings as a TOML document: reading them, and writing the defaults. -/

namespace MigrationMining

namespace Toml

/-- The values that a table or an array gives for the names of a record. A time has the form of a table with none
of them. -/
def record? (names : List String) : Toml → Option (List (Option Toml))
  | .table _ entries => some (names.map (Entries.get? entries))
  | .array items => some (names.zipIdx.map fun (_, i) => items[i]?)
  | .tables rows => some (names.zipIdx.map fun (_, i) => rows[i]?.map (.table .header))
  | .datetime => some (names.map fun _ => none)
  | _ => none

def string? : Toml → Option String
  | .string s => some s
  | _ => none

def nat? (bits : Nat) : Toml → Option Nat
  | .integer n => if 0 ≤ n ∧ n < (Nat.pow 2 bits : Int) then some n.toNat else none
  | _ => none

def strings? : Toml → Option (List String)
  | .array items => items.mapM string?
  | _ => none

def orDefault {α : Type} (read : Toml → Option α) (default : α) : Option Toml → Option α
  | some t => read t
  | none => some default

end Toml

open Toml (orDefault)

def readPath (t : Toml) : Option Path := t.string?.map Path.mk

def SourceSettings.ofToml? (t : Toml) : Option SourceSettings := do
  let d : SourceSettings := {}
  match ← t.record? Settings.sourceNames with
  | [kind, repository, usage, graph] => return {
      kind := ← orDefault Toml.string? d.kind kind
      repositoryUrl := ← orDefault Toml.string? d.repositoryUrl repository
      usageUrl := ← orDefault Toml.string? d.usageUrl usage
      graphDirectory := ← orDefault readPath d.graphDirectory graph }
  | _ => none

def NetworkSettings.ofToml? (t : Toml) : Option NetworkSettings := do
  let d : NetworkSettings := {}
  match ← t.record? Settings.networkNames with
  | [repository, usage, backoff, attempts, timeout, agent] => return {
      repositoryRate := ← orDefault (Toml.nat? 32) d.repositoryRate repository
      usageRate := ← orDefault (Toml.nat? 32) d.usageRate usage
      backoff := ← orDefault (Toml.nat? 64) d.backoff backoff
      maxAttempts := ← orDefault (fun t => (t.nat? 32).map some) d.maxAttempts attempts
      timeout := ← orDefault (Toml.nat? 64) d.timeout timeout
      userAgent := ← orDefault Toml.string? d.userAgent agent }
  | _ => none

def AnalysisSettings.ofToml? (t : Toml) : Option AnalysisSettings := do
  let d : AnalysisSettings := {}
  match ← t.record? Settings.analysisNames with
  | [path, top, workers, threshold] => return {
      datasetPath := ← orDefault readPath d.datasetPath path
      topCandidates := ← orDefault (Toml.nat? 64) d.topCandidates top
      workers := ← orDefault (Toml.nat? 64) d.workers workers
      focusThreshold := ← orDefault (Toml.nat? 64) d.focusThreshold threshold }
  | _ => none

def ExtractorSettings.ofToml? (t : Toml) : Option ExtractorSettings := do
  let d : ExtractorSettings := {}
  match ← t.record? Settings.extractorNames with
  | [kind, command, arguments, cache] => return {
      kind := ← orDefault Toml.string? d.kind kind
      command := ← orDefault (fun t => t.string?.map some) d.command command
      arguments := ← orDefault Toml.strings? d.arguments arguments
      cacheDirectory := ← orDefault readPath d.cacheDirectory cache }
  | _ => none

def LoggingSettings.ofToml? (t : Toml) : Option LoggingSettings := do
  let d : LoggingSettings := {}
  match ← t.record? Settings.loggingNames with
  | [level, format] => return {
      level := ← orDefault Toml.string? d.level level
      format := ← orDefault Toml.string? d.format format }
  | _ => none

namespace Settings

/-- The settings of a document; what it leaves out has its default, and what it has besides is ignored. -/
def ofToml? (t : Toml) : Option Settings := do
  match ← t.record? sectionNames with
  | [source, network, analysis, extractor, logging] => return {
      source := ← orDefault SourceSettings.ofToml? {} source
      network := ← orDefault NetworkSettings.ofToml? {} network
      analysis := ← orDefault AnalysisSettings.ofToml? {} analysis
      extractor := ← orDefault ExtractorSettings.ofToml? {} extractor
      logging := ← orDefault LoggingSettings.ofToml? {} logging }
  | _ => none

def parse (document : String → Option Toml.Entries) (text : String) : Option Settings :=
  (document text).bind fun entries => ofToml? (.table .header entries)

def lineOf (name : String) (value : Json) : Option String :=
  match value with
  | .null => none
  | value => some (name ++ " = " ++ value.compact)

def sectionText (name : String) (members : List (String × Json)) : String :=
  String.intercalate "\n" (("[" ++ name ++ "]") :: members.filterMap fun (n, v) => lineOf n v) ++ "\n"

/-- The document of some settings, a blank line between each two sections. -/
def documentText (s : Settings) : String :=
  String.intercalate "\n" (s.sections.map fun (name, members) => sectionText name members)

def defaultText : String := documentText {}

end Settings

end MigrationMining
