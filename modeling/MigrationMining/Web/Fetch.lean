import MigrationMining.Text.Encoding
import MigrationMining.Web.Client
import MigrationMining.World

/-! Fetching: the text at a URL, whether there is something, and a download into a file. -/

namespace MigrationMining.Fetch

def broken (url : String) : FetchFailure := .transient url "error sending request"

def isSuccess (status : Nat) : Bool := 200 ≤ status && status < 300

/-- One request; what the client refuses is never asked for. -/
def ask (client : Client) (method : Method) (url : String) : StateM World (Except FetchFailure Response) :=
  match client.request url with
  | .error reason => pure (.error (.setup reason))
  | .ok u => .ok <$> World.ask ⟨method, u⟩

/-- The status of a response that has no body, whatever is sent with it. -/
def noContent : Nat := 204

def getOnce (client : Client) (url : String) : StateM World (Except FetchFailure (ByteArray × Bool)) := do
  match ← ask client .get url with
  | .error e => return .error e
  | .ok .dropped => return .error (broken url)
  | .ok (.answered status body isWhole) =>
    if status = noContent then return .ok (.empty, true)
    return if isSuccess status then .ok (body, isWhole) else .error (.ofStatus status url)

def decode (body : ByteArray) : String := String.ofList (Text.decode body.toList)

def text (f : Fetcher) (url : String) : StateM World (Except FetchFailure String) :=
  f.policy.run url do
    match ← getOnce f.client url with
    | .error e => return .error e
    | .ok (body, isWhole) => return if isWhole then .ok (decode body) else .error (broken url)

def probeOnce (client : Client) (url : String) : StateM World (Except FetchFailure Unit) := do
  match ← ask client .head url with
  | .error e => return .error e
  | .ok .dropped => return .error (broken url)
  | .ok (.answered status _ _) => return if isSuccess status then .ok () else .error (.ofStatus status url)

def probe (f : Fetcher) (url : String) : StateM World (Except FetchFailure Bool) := do
  match ← f.policy.run url (probeOnce f.client url) with
  | .ok () => return .ok true
  | .error e => return if e.isNotFound then .ok false else .error e

/-- The file beside the target that a download is written to before it is complete, named by the process and by a number
of the download. -/
def scratch (target : Path) (process number : Nat) : Path :=
  target.withExtension ("part." ++ toString process ++ "." ++ toString number)

/-- Writes one response to the scratch file. A body that breaks off leaves its beginning there. -/
def downloadOnce (client : Client) (url : String) (part : Path) : StateM World (Except FetchFailure Nat) := do
  match ← getOnce client url with
  | .error e => return .error e
  | .ok (body, isWhole) =>
    match ← World.change (·.writeBytes part body) with
    | .error e => return .error (.file e.message)
    | .ok () => return if isWhole then .ok body.size else .error (broken url)

def discard (p : Path) : StateM World Unit := do
  let _ ← World.change (·.remove p)

/-- Moves the finished scratch file into place. If that fails although something is there, another download of
the same target has been faster. -/
def install (part target : Path) (size : Nat) : StateM World (Except FetchFailure Nat) := do
  match ← World.change (·.rename part target) with
  | .ok () => return .ok size
  | .error e =>
    discard part
    return if (← get).files.exists? target then .ok size else .error (.file e.message)

def download (f : Fetcher) (url : String) (target : Path) : StateM World (Except FetchFailure Nat) := do
  let w ← get
  modify fun w => { w with downloads := w.downloads + 1 }
  let part := scratch target w.process w.downloads
  match ← f.policy.run url (downloadOnce f.client url part) with
  | .ok size => install part target size
  | .error e =>
    discard part
    return .error e

end MigrationMining.Fetch
