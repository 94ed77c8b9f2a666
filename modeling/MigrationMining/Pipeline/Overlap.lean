import MigrationMining.Pipeline.Migration
import MigrationMining.Pipeline.Setup
import MigrationMining.Repository.Inflight

/-! Pairs that are diffed at once. While the fetch of an archive waits, for the web or for another fetch, the attempts
at other pairs go on; all other calls are answered at once. An attempt that has to be interrupted is run again on the
answers it has had so far. -/

namespace MigrationMining

inductive Asked where
  | archive (release : Coordinate) (directory : Path)
  | call (perform : StateM World Exchange)

/-- The answers that are still to be given. When there are none left, what is asked first is kept. -/
structure Replay where
  answers : List Exchange
  asked : Option Asked := none

namespace Replay

def answered {α : Type} (answer? : Exchange → Option α) (idle : α) (asked : Asked) : StateM Replay α := fun r =>
  match r.asked, r.answers with
  | none, e :: answers => ((answer? e).getD idle, { r with answers })
  | none, [] => (idle, { r with asked := some asked })
  | some _, _ => (idle, r)

def services (s : Services World) : Services Replay where
  releases p := answered (fun | .releases _ a => some a | _ => none) [] (.call (.releases p <$> s.releases p))
  clients c := answered (fun | .clients _ a => some a | _ => none) [] (.call (.clients c <$> s.clients c))
  links p := answered (fun | .links _ a => some a | _ => none) [] (.call (.links p <$> s.links p))
  isListed c := answered (fun | .isListed _ a => some a | _ => none) false (.call (.isListed c <$> s.isListed c))
  dependencies c :=
    answered (fun | .dependencies _ a => some a | _ => none) [] (.call (.dependencies c <$> s.dependencies c))
  archive c directory := answered (fun | .archive _ _ a => some a | _ => none) none (.archive c directory)
  declarations x :=
    answered (fun | .declarations _ a => some a | _ => none) (.error .cancelled)
      (.call (.declarations x <$> s.declarations x))
  callGraph x :=
    answered (fun | .callGraph _ a => some a | _ => none) (.error .cancelled) (.call (.callGraph x <$> s.callGraph x))
  save path text :=
    answered (fun | .save _ _ a => some a | _ => none) (.ok ()) (.call (.save path text <$> s.save path text))
  report d := answered (fun | .report _ => some () | _ => none) () (.call ((fun _ => .report d) <$> s.report d))
  cancelled := answered (fun | .cancelled a => some a | _ => none) true (.call (.cancelled <$> s.cancelled))

end Replay

/-- An attempt at a pair that has been interrupted: the exchanges so far, and the fetch it waits for. -/
structure OpenAttempt where
  pair : Coordinate × Coordinate
  exchanges : List Exchange := []
  fetch : Option ArchiveFetch := none

namespace OpenAttempt

def next (s : Services World) (directory : Path) (a : OpenAttempt) : Asked ⊕ Option PairReport :=
  let (outcome, r) := PairReport.attempt (Replay.services s) directory a.pair { answers := a.exchanges }
  match r.asked with
  | some asked => .inl asked
  | none => .inr outcome

def note (a : OpenAttempt) (e : Exchange) : OpenAttempt := { a with exchanges := a.exchanges ++ [e], fetch := none }

/-- A turn of an attempt: a call, or a turn of the fetch it waits for. -/
def turn (archives : Repository) (s : Services World) (directory : Path) (a : OpenAttempt) :
    StateM FetchWorld (OpenAttempt ⊕ Option PairReport) := do
  match a.fetch with
  | some f =>
    let f ← f.turn archives
    match f.outcome? with
    | some found => return .inl (a.note (.archive f.release f.root found))
    | none => return .inl { a with fetch := some f }
  | none =>
    match a.next s directory with
    | .inl (.archive release root) => return .inl { a with fetch := some { release, root } }
    | .inl (.call perform) => return .inl (a.note (← FetchWorld.inWorld perform))
    | .inr outcome => return .inr outcome

def waits (a : OpenAttempt) (v : FetchWorld) : Bool :=
  match a.fetch with
  | some f => f.stage.waits (v.locks f.target)
  | none => false

end OpenAttempt

/-- The pairs that have not been begun, the attempts at others, and what has become of the rest. -/
structure OpenPairs where
  fetches : FetchWorld
  waiting : List (Coordinate × Coordinate)
  running : List OpenAttempt := []
  outcomes : List (Option PairReport) := []

namespace OpenPairs

/-- Begins a pair if fewer than `limit` attempts are running. Otherwise the first of them has its turn, and lets the
others go first if it has to wait. -/
def turn (archives : Repository) (s : Services World) (directory : Path) (limit : Nat) (o : OpenPairs) : OpenPairs :=
  match o.waiting, o.running with
  | pair :: waiting, running =>
    if running.length < limit then { o with waiting, running := running ++ [{ pair }] } else first o
  | [], _ => first o
where
  first (o : OpenPairs) : OpenPairs :=
    match o.running with
    | [] => o
    | a :: rest =>
      match a.turn archives s directory o.fetches with
      | (.inr outcome, fetches) => { o with fetches, running := rest, outcomes := o.outcomes ++ [outcome] }
      | (.inl a, fetches) => { o with fetches, running := if a.waits fetches then rest ++ [a] else a :: rest }

def settleWithin (archives : Repository) (s : Services World) (directory : Path) (limit : Nat) :
    (left : Nat) → OpenPairs → OpenPairs
  | 0, o => o
  | left + 1, o =>
    if o.waiting.isEmpty && o.running.isEmpty then o
    else settleWithin archives s directory limit left (o.turn archives s directory limit)

def turnLimit : Nat := Nat.pow 2 62

def settle (archives : Repository) (s : Services World) (directory : Path) (limit : Nat) : OpenPairs → OpenPairs :=
  settleWithin archives s directory limit turnLimit

end OpenPairs

def Setup.diff (setup : Setup) (x : Extractor) (limit : Nat) (directory : Path)
    (pairs : List (Coordinate × Coordinate)) : StateM World MigrationReport := do
  let s := setup.services x
  if limit ≤ 1 then MigrationReport.run s directory pairs
  else
    let o := OpenPairs.settle setup.archives s directory limit { fetches := { world := ← get }, waiting := pairs }
    set o.fetches.world
    return .ofOutcomes o.outcomes (← s.cancelled)

end MigrationMining
