import MigrationMining.Diagnostic
import MigrationMining.Failure

/-! Why something cannot be fetched, in words, as a diagnostic and as a failure of a mining step. -/

namespace MigrationMining

inductive FetchFailure where
  | notFound (what : String)
  | transient (url reason : String)
  | status (code : Nat) (url : String)
  | unreadable (what reason : String)
  | file (cause : String)
  | setup (reason : String)
  | exhausted (url : String) (attempts : Nat)
  deriving DecidableEq

namespace FetchFailure

def message : FetchFailure → String
  | .notFound what => "Not found: " ++ what
  | .transient url reason => "Transient failure fetching " ++ url ++ ": " ++ reason
  | .status code url => "HTTP " ++ toString code ++ " for " ++ url
  | .unreadable what reason => "Failed to parse " ++ what ++ ": " ++ reason
  | .file cause => "IO error: " ++ cause
  | .setup reason => "HTTP client setup failed: " ++ reason
  | .exhausted url attempts => "Gave up on " ++ url ++ " after " ++ toString attempts ++ " attempts"

def isTransient : FetchFailure → Bool
  | .transient .. => true
  | _ => false

def isNotFound : FetchFailure → Bool
  | .notFound _ => true
  | _ => false

def ofStatus (code : Nat) (url : String) : FetchFailure :=
  if code = 404 ∨ code = 410 then .notFound url
  else if code = 429 ∨ (500 ≤ code ∧ code ≤ 599) then .transient url ("HTTP " ++ toString code)
  else .status code url

def failure : FetchFailure → Failure
  | .notFound what => .notFound what
  | .file cause => .file cause
  | .setup reason => .configuration reason
  | f@(.transient ..) => .transient f.message
  | f@(.unreadable ..) => .malformedInput f.message
  | f => .notFound f.message

def diagnostic (subject : String) (f : FetchFailure) : Diagnostic :=
  let kind := match f with
    | .notFound _ | .status .. => .notFound
    | .unreadable .. => .malformedInput
    | _ => .transient
  ⟨kind, subject, f.message⟩

end FetchFailure

end MigrationMining
