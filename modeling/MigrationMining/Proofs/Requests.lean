import MigrationMining.Web.Fetch

/-! What a run on the world can lead to, step by step: a request changes nothing but the web, and an attempt to download
writes to one file. -/

namespace MigrationMining

namespace World

variable {f : FileStore → Except FileFailure FileStore} {w : World}

theorem change_of_eq_ok {files : FileStore} (changed : f w.files = .ok files) :
    change f w = (.ok (), { w with files }) := by
  rw [change, changed]

theorem changeInSteps_of_eq_ok {f : FileStore → Except FileStore.Interrupted FileStore} {files : FileStore}
    (changed : f w.files = .ok files) : changeInSteps f w = (.ok (), { w with files }) := by
  rw [changeInSteps, changed]
  rfl

theorem changeInSteps_of_eq_error {f : FileStore → Except FileStore.Interrupted FileStore} {e : FileStore.Interrupted}
    (failed : f w.files = .error e) : changeInSteps f w = (.error e.cause, { w with files := e.files }) := by
  rw [changeInSteps, failed]
  rfl

theorem change_of_eq_error {e : FileFailure} (failed : f w.files = .error e) : change f w = (.error e, w) := by
  rw [change, failed]

end World

/-- A run leads from every world to one that is related to it. -/
def World.Leads {α : Type} (R : World → World → Prop) (m : StateM World α) : Prop := ∀ w, R w (m w).2

namespace World.Leads

variable {α β : Type} {R : World → World → Prop} (refl : ∀ w, R w w) (trans : ∀ u v w, R u v → R v w → R u w)

include refl in
theorem pure (a : α) : Leads R (Pure.pure a) := fun w => refl w

include trans in
theorem bind {m : StateM World α} {f : α → StateM World β} (first : Leads R m) (rest : ∀ a, Leads R (f a)) :
    Leads R (m >>= f) := fun w => trans _ _ _ (first w) (rest (m w).1 (m w).2)

include refl trans in
theorem attemptFrom {url : String} {attempt : StateM World (Except FetchFailure α)} (leads : Leads R attempt)
    (left made : Nat) : Leads R (RetryPolicy.attemptFrom url attempt left made) := by
  induction left generalizing made with
  | zero => exact pure refl _
  | succ left ih =>
    refine bind trans leads fun answer => ?_
    cases answer with
    | ok a => exact pure refl _
    | error e =>
      dsimp only
      split
      · exact ih (made + 1)
      · exact pure refl _

end World.Leads

def World.Asks (w w' : World) : Prop := ∃ web, w' = { w with web }

theorem World.Asks.refl (w : World) : w.Asks w := ⟨w.web, rfl⟩

theorem World.Asks.trans (u v w : World) : u.Asks v → v.Asks w → u.Asks w := by
  rintro ⟨_, rfl⟩ ⟨web, rfl⟩
  exact ⟨web, rfl⟩

theorem Fetch.asks_ask (client : Client) (method : Method) (url : String) :
    World.Leads World.Asks (ask client method url) := by
  unfold ask
  split
  · exact World.Leads.pure World.Asks.refl _
  · exact fun w => ⟨_, rfl⟩

theorem Fetch.asks_getOnce (client : Client) (url : String) : World.Leads World.Asks (getOnce client url) := by
  refine World.Leads.bind World.Asks.trans (asks_ask client .get url) fun answer => ?_
  rcases answer with e | (⟨status, body, isWhole⟩ | _)
  · exact World.Leads.pure World.Asks.refl _
  · dsimp only
    split <;> exact World.Leads.pure World.Asks.refl _
  · exact World.Leads.pure World.Asks.refl _

namespace World.Leads

variable {R : World → World → Prop} {client : Client} {url : String} {p : Path}

theorem getOnce (asks : ∀ w web, R w { w with web }) (client : Client) (url : String) :
    Leads R (Fetch.getOnce client url) := by
  intro w
  obtain ⟨web, asked⟩ := Fetch.asks_getOnce client url w
  rw [asked]
  exact asks w web

theorem changeInSteps {f : FileStore → Except FileStore.Interrupted FileStore}
    (changes : ∀ w : World, R w { w with files := FileStore.treeAfter (f w.files) }) : Leads R (World.changeInSteps f) :=
  changes

section Files

variable (refl : ∀ w, R w w) (trans : ∀ u v w, R u v → R v w → R u w)

include refl

theorem change {f : FileStore → Except FileFailure FileStore}
    (changes : ∀ w files, f w.files = .ok files → R w { w with files }) : Leads R (World.change f) := by
  intro w
  cases changed : f w.files with
  | ok files =>
    rw [change_of_eq_ok changed]
    exact changes w files changed
  | error e =>
    rw [change_of_eq_error changed]
    exact refl w

include trans

theorem discard (removes : ∀ w files, w.files.remove p = .ok files → R w { w with files }) :
    Leads R (Fetch.discard p) :=
  bind trans (change refl removes) fun _ => pure refl _

theorem downloadOnce (asks : ∀ w web, R w { w with web })
    (writes : ∀ w content files, w.files.writeBytes p content = .ok files → R w { w with files }) :
    Leads R (Fetch.downloadOnce client url p) := by
  refine bind trans (getOnce asks client url) fun answer => ?_
  rcases answer with e | ⟨body, isWhole⟩
  · exact pure refl _
  · refine bind trans (change refl fun w => writes w body) fun written => ?_
    cases written <;> exact pure refl _

end Files
end World.Leads
end MigrationMining
