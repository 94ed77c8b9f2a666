import Mathlib.Logic.Function.Iterate
import MigrationMining.Proofs.Attempts
import MigrationMining.Proofs.Requests
import MigrationMining.Proofs.ServiceTrace

/-! Responses to the attempts of a download: which of them are whole, and what an attempt makes of one. -/

namespace MigrationMining

def Response.whole? : Response → Option ByteArray
  | .dropped => none
  | .answered status body isWhole =>
    if status = Fetch.noContent then some .empty else if Fetch.isSuccess status && isWhole then some body else none

/-- After such a response a request is made once more, if there may be another one: none came, its body breaks off, or it
tells of a failure that may pass. -/
def Response.isPassing : Response → Bool
  | .dropped => true
  | .answered status _ isWhole =>
    status ≠ Fetch.noContent && if Fetch.isSuccess status then !isWhole else (FetchFailure.ofStatus status "").isTransient

namespace Web

def after (web : Web) (request : Request) (n : Nat) : Web := (fun web => (web.ask request).2)^[n] web

/-- The response to a request that has been made that many times before. -/
def reply (web : Web) (request : Request) (n : Nat) : Response := ((web.after request n).ask request).1

theorem after_succ (web : Web) (request : Request) (n : Nat) :
    web.after request (n + 1) = ((web.after request n).ask request).2 := Function.iterate_succ_apply' _ n web

end Web

namespace Fetch

variable {client : Client} {url u : String} {part : Path} {w : World}

/-- What a download makes of a response: its body, and whether it is whole. -/
def content (url : String) : Response → Except FetchFailure (ByteArray × Bool)
  | .dropped => .error (broken url)
  | .answered status body isWhole =>
    if status = noContent then .ok (.empty, true)
    else if isSuccess status then .ok (body, isWhole) else .error (.ofStatus status url)

theorem content_eq_ok_true_iff {response : Response} {body : ByteArray} :
    content url response = .ok (body, true) ↔ response.whole? = some body := by
  cases response with
  | dropped => simp [content, Response.whole?]
  | answered status body isWhole =>
    rw [content, Response.whole?]
    by_cases empty : status = noContent
    · simp [empty]
    · by_cases success : isSuccess status
      · cases isWhole <;> simp [empty, success]
      · simp [empty, success]

theorem isTransient_ofStatus (status : Nat) (url url' : String) :
    (FetchFailure.ofStatus status url).isTransient = (FetchFailure.ofStatus status url').isTransient := by
  unfold FetchFailure.ofStatus
  split
  · rfl
  · split <;> rfl

theorem isPassing_eq (url : String) (response : Response) : response.isPassing =
    match content url response with
    | .error e => e.isTransient
    | .ok (_, isWhole) => !isWhole := by
  cases response with
  | dropped => rfl
  | answered status body isWhole =>
    rw [Response.isPassing, content]
    by_cases empty : status = noContent
    · simp [empty]
    · by_cases success : isSuccess status
      · simp [empty, success]
      · simp [empty, success, isTransient_ofStatus status url ""]

theorem getOnce_of_request (asked : client.request url = .ok u) (w : World) : getOnce client url w =
    (content url (w.web.ask ⟨.get, u⟩).1, { w with web := (w.web.ask ⟨.get, u⟩).2 }) := by
  refine Services.bind_run_eq_iff.2 ⟨.ok (w.web.ask ⟨.get, u⟩).1, { w with web := (w.web.ask ⟨.get, u⟩).2 }, ?_, ?_⟩
  · rw [ask, asked]
    rfl
  · cases (w.web.ask ⟨.get, u⟩).1 with
    | dropped => rfl
    | answered status body isWhole =>
      dsimp only [content]
      split <;> rfl

theorem getOnce_of_refused {reason : String} (refused : client.request url = .error reason) (w : World) :
    getOnce client url w = (.error (.setup reason), w) := by
  refine Services.bind_run_eq_iff.2 ⟨.error (.setup reason), w, ?_, rfl⟩
  rw [ask, refused]
  rfl

theorem downloadOnce_of_refused {reason : String} (refused : client.request url = .error reason) (part : Path)
    (w : World) : downloadOnce client url part w = (.error (.setup reason), w) :=
  Services.bind_run_eq_iff.2 ⟨_, _, getOnce_of_refused refused w, rfl⟩

theorem downloadOnce_of_request (asked : client.request url = .ok u) (part : Path) (w : World) :
    downloadOnce client url part w =
      match content url (w.web.ask ⟨.get, u⟩).1 with
      | .error e => (.error e, { w with web := (w.web.ask ⟨.get, u⟩).2 })
      | .ok (body, isWhole) =>
        match w.files.writeBytes part body with
        | .error e => (.error (.file e.message), { w with web := (w.web.ask ⟨.get, u⟩).2 })
        | .ok files =>
          (if isWhole then .ok body.size else .error (broken url),
            { w with web := (w.web.ask ⟨.get, u⟩).2, files }) := by
  refine Services.bind_run_eq_iff.2 ⟨_, _, getOnce_of_request asked w, ?_⟩
  cases content url (w.web.ask ⟨.get, u⟩).1 with
  | error e => rfl
  | ok answer =>
    obtain ⟨body, isWhole⟩ := answer
    dsimp only
    cases written : w.files.writeBytes part body with
    | error e => exact Services.bind_run_eq_iff.2 ⟨_, _, World.change_of_eq_error written, rfl⟩
    | ok files => exact Services.bind_run_eq_iff.2 ⟨_, _, World.change_of_eq_ok written, rfl⟩

theorem web_downloadOnce (asked : client.request url = .ok u) (part : Path) (w : World) :
    (downloadOnce client url part w).2.web = (w.web.ask ⟨.get, u⟩).2 := by
  rw [downloadOnce_of_request asked]
  split
  · rfl
  · split <;> rfl

theorem of_downloadOnce_eq_ok {size : Nat} (asked : client.request url = .ok u)
    (done : (downloadOnce client url part w).1 = .ok size) : ∃ body, (w.web.ask ⟨.get, u⟩).1.whole? = some body ∧
      w.files.writeBytes part body = .ok (downloadOnce client url part w).2.files := by
  rw [downloadOnce_of_request asked] at done ⊢
  split at done
  · cases done
  · next body isWhole response =>
    split at done
    · cases done
    · next files written =>
      cases isWhole with
      | false => cases done
      | true => exact ⟨body, content_eq_ok_true_iff.1 response, written⟩

theorem isPassing_of_isTransient (asked : client.request url = .ok u)
    (transient : RetryPolicy.isTransient (downloadOnce client url part w).1) : (w.web.ask ⟨.get, u⟩).1.isPassing := by
  rw [downloadOnce_of_request asked] at transient
  rw [isPassing_eq url]
  split at transient
  · exact transient
  · next body isWhole _ =>
    split at transient
    · cases transient
    · cases isWhole with
      | false => rfl
      | true => cases transient

section Writable

variable (writable : ∀ content, ∃ fs, w.files.writeBytes part content = .ok fs)

include writable

theorem isTransient_of_isPassing (asked : client.request url = .ok u) (passing : (w.web.ask ⟨.get, u⟩).1.isPassing) :
    RetryPolicy.isTransient (downloadOnce client url part w).1 := by
  rw [isPassing_eq url] at passing
  rw [downloadOnce_of_request asked]
  split at passing
  · exact passing
  · next body isWhole _ =>
    obtain ⟨fs, written⟩ := writable body
    rw [written]
    cases isWhole with
    | false => rfl
    | true => cases passing

theorem downloadOnce_of_whole (asked : client.request url = .ok u) {body : ByteArray}
    (whole : (w.web.ask ⟨.get, u⟩).1.whole? = some body) :
    (downloadOnce client url part w).1 = .ok body.size := by
  obtain ⟨fs, written⟩ := writable body
  rw [downloadOnce_of_request asked, content_eq_ok_true_iff.2 whole]
  dsimp only
  rw [written]
  rfl

end Writable

end Fetch

end MigrationMining
