/-! Diagnostics: what a run reports about its inputs without giving up. -/

namespace MigrationMining

inductive DiagnosticKind where
  | notFound
  | transient
  | malformedInput
  | extractionFailure
  | diffSkipped
  deriving DecidableEq

namespace DiagnosticKind

def all : List DiagnosticKind := [.notFound, .transient, .malformedInput, .extractionFailure, .diffSkipped]

def text : DiagnosticKind → String
  | .notFound => "not-found"
  | .transient => "transient"
  | .malformedInput => "malformed-input"
  | .extractionFailure => "extraction-failure"
  | .diffSkipped => "diff-skipped"

theorem mem_all (k : DiagnosticKind) : k ∈ all := by cases k <;> simp [all]

end DiagnosticKind

structure Diagnostic where
  kind : DiagnosticKind
  subject : String
  message : String
  deriving DecidableEq

abbrev DiagnosticLog := List Diagnostic

namespace DiagnosticLog

def count (log : DiagnosticLog) (kind : DiagnosticKind) : Nat := log.countP (·.kind = kind)

/-- How many diagnostics of each kind there are, kinds without any left out. -/
def summary (log : DiagnosticLog) : List (DiagnosticKind × Nat) :=
  (DiagnosticKind.all.map fun kind => (kind, log.count kind)).filter (·.2 > 0)

end DiagnosticLog

end MigrationMining
