import MigrationMining.UsageMatrix
import MigrationMining.Json.Record

/-! Migration candidates: pairs of library releases, ranked by how many clients moved from one to the other. -/

namespace MigrationMining

/-- Two releases of a library and the clients that use both in different versions: the same project stands at
the same place of both lists. -/
structure Candidate where
  older : Coordinate
  newer : Coordinate
  migrated : Nat
  clientsAtOlder : List Coordinate
  clientsAtNewer : List Coordinate
  deriving DecidableEq

/-- The pairs of a list's items with an earlier item first, in lexicographic order of their positions. -/
def orderedPairs {α : Type} : List α → List (α × α)
  | [] => []
  | x :: xs => xs.map (x, ·) ++ orderedPairs xs

namespace Candidate

/-- The two versions of `client` that use `older` and `newer`, if it uses both and they differ. -/
def move? (m : UsageMatrix) (older newer : Coordinate) (client : Project) : Option (Coordinate × Coordinate) :=
  match m.get? older client, m.get? newer client with
  | some a, some b => if a ≠ b then some (client.release a, client.release b) else none
  | _, _ => none

def between (m : UsageMatrix) (clients : ProjectSet) (older newer : Coordinate) : Candidate :=
  let moves := clients.toList.filterMap (move? m older newer)
  { older, newer
    migrated := moves.length
    clientsAtOlder := moves.map (·.1)
    clientsAtNewer := moves.map (·.2) }

def clientPairs (c : Candidate) : List (Coordinate × Coordinate) := c.clientsAtOlder.zip c.clientsAtNewer

/-- Candidates with more migrated clients stand first; among equals the order of enumeration is kept. -/
def byMigrated (cs : List Candidate) : List Candidate := cs.mergeSort fun a b => b.migrated ≤ a.migrated

/-- Compares the pairs of `versions` one after the other and ranks what was compared. `seen k` tells whether the
run is found cancelled when `k` pairs have been compared. -/
def rankUntil (seen : Nat → Bool) (versions : List Coordinate) (m : UsageMatrix) (clients : ProjectSet) :
    List Candidate :=
  let compared := (orderedPairs versions).zipIdx.takeWhile fun (_, k) => !seen k
  byMigrated (compared.map fun ((older, newer), _) => between m clients older newer)

def rank (m : UsageMatrix) : List Candidate := rankUntil (fun _ => false) m.versions m m.clients

def fieldNames : List String := ["v1", "v2", "migratedCount", "clientsAtV1", "clientsAtV2"]

def toJson (c : Candidate) : Json :=
  .object [
    ("v1", .string c.older.text),
    ("v2", .string c.newer.text),
    ("migratedCount", .nat c.migrated),
    ("clientsAtV1", .strings (c.clientsAtOlder.map (·.text))),
    ("clientsAtV2", .strings (c.clientsAtNewer.map (·.text)))]

end Candidate

def Json.coordinate? (j : Json) : Option Coordinate := j.string?.bind fun s => (Coordinate.parse s).toOption

def Json.project? (j : Json) : Option Project := j.string?.bind fun s => (Project.parse s).toOption

def Candidate.ofJson? (j : Json) : Option Candidate :=
  match j.record? fieldNames with
  | some [some older, some newer, some migrated, some atOlder, some atNewer] => do
    return {
      older := ← older.coordinate?
      newer := ← newer.coordinate?
      migrated := ← migrated.nat?
      clientsAtOlder := ← atOlder.list? Json.coordinate?
      clientsAtNewer := ← atNewer.list? Json.coordinate? }
  | _ => none

end MigrationMining
