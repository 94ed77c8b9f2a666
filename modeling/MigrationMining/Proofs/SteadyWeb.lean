import MigrationMining.Proofs.PageWalk
import MigrationMining.Web.Fetch

/-! A web that does not change: every lookup of an address gives the same answer, whatever was looked up before. -/

namespace MigrationMining

/-- What holds of a request, and of runs that are put together from runs of which it holds, holds of a lookup. -/
theorem Fetch.text_induction {P : {α : Type} → StateM World α → Prop} (pure : ∀ {α : Type} (a : α), P (Pure.pure a))
    (bind : ∀ {α β : Type} {m : StateM World α} {f : α → StateM World β}, P m → (∀ a, P (f a)) → P (m >>= f))
    (ask : ∀ request, P (World.ask request)) (f : Fetcher) (url : String) : P (Fetch.text f url) := by
  have asking : P (Fetch.ask f.client .get url) := by
    unfold Fetch.ask
    split
    · exact pure _
    · exact bind (ask _) fun response => pure (Except.ok response)
  have once : P (Fetch.getOnce f.client url) := by
    refine bind asking fun answer => ?_
    rcases answer with e | (⟨status, body, isWhole⟩ | _)
    · exact pure _
    · dsimp only
      split <;> exact pure _
    · exact pure _
  have attempts {attempt : StateM World (Except FetchFailure String)} (each : P attempt) (left made : Nat) :
      P (RetryPolicy.attemptFrom url attempt left made) := by
    induction left generalizing made with
    | zero => exact pure _
    | succ left ih =>
      refine bind each fun answer => ?_
      cases answer with
      | ok a => exact pure _
      | error e =>
        dsimp only
        split
        · exact ih (made + 1)
        · exact pure _
  refine attempts (bind once fun answer => ?_) f.policy.limit 0
  rcases answer with e | ⟨body, isWhole⟩ <;> exact pure _

def World.OnWeb {α : Type} (m : StateM World α) : Prop :=
  ∀ w, m w = ((m { web := w.web }).1, { w with web := (m { web := w.web }).2.web })

theorem World.OnWeb.bind {α β : Type} {m : StateM World α} {f : α → StateM World β} (first : OnWeb m)
    (rest : ∀ a, OnWeb (f a)) : OnWeb (m >>= f) := by
  intro w
  have web : (m { web := w.web }).2 = { web := (m { web := w.web }).2.web } := congrArg Prod.snd (first _)
  change f (m w).1 (m w).2 = ((f (m { web := w.web }).1 (m { web := w.web }).2).1, { w with web :=
    (f (m { web := w.web }).1 (m { web := w.web }).2).2.web })
  rw [first w, rest _ { w with web := _ }, web]

theorem Fetch.onWeb_text (f : Fetcher) (url : String) : World.OnWeb (Fetch.text f url) :=
  text_induction (P := World.OnWeb) (fun _ _ => rfl) World.OnWeb.bind (fun _ _ => rfl) f url

namespace Web

def lookup (f : Fetcher) (web : Web) (url : String) : Except FetchFailure String × Web :=
  ((Fetch.text f url { web }).1, (Fetch.text f url { web }).2.web)

/-- The web after lookups of these addresses, one after the other. -/
def afterLookups (f : Fetcher) (urls : List String) (web : Web) : Web :=
  urls.foldl (fun web url => (web.lookup f url).2) web

/-- Every lookup of an address gives the same answer, whatever was looked up before. -/
def Steady (f : Fetcher) (answer : String → Except FetchFailure String) (web : Web) : Prop :=
  ∀ before url, ((web.afterLookups f before).lookup f url).1 = answer url

variable {f : Fetcher} {answer : String → Except FetchFailure String} {web : Web}

theorem text_eq_lookup (f : Fetcher) (url : String) (w : World) : Fetch.text f url w =
    ((w.web.lookup f url).1, { w with web := (w.web.lookup f url).2 }) := Fetch.onWeb_text f url w

theorem gives_text (f : Fetcher) (answer : String → Except FetchFailure String) (url : String) :
    Gives (fun w => w.web.Steady f answer) World.log (Fetch.text f url) (answer url) [] := by
  intro w steady
  rw [text_eq_lookup]
  exact ⟨steady [] url, (List.append_nil _).symm, fun before => steady (url :: before)⟩

theorem gives_report (d : Diagnostic) :
    Gives (fun w => w.web.Steady f answer) World.log (World.report d) () [d] :=
  fun _ steady => ⟨rfl, rfl, steady⟩

/-- No address has more than one response; it is the response to every request. -/
def IsFixed (web : Web) : Prop := ∀ page ∈ web.pages, page.2.length ≤ 1

theorem IsFixed.take {pages : List (String × List Response)} (fixed : ∀ page ∈ pages, page.2.length ≤ 1)
    (url : String) : (take url pages).2 = pages := by
  induction pages with
  | nil => rfl
  | cons page pages ih =>
    obtain ⟨u, rs⟩ := page
    obtain ⟨one, others⟩ := List.forall_mem_cons.1 fixed
    rw [Web.take]
    split
    · rcases rs with _ | ⟨r, _ | ⟨r', rs⟩⟩
      · rfl
      · rfl
      · simp at one
    · rw [ih others]

theorem IsFixed.steady (fixed : web.IsFixed) (f : Fetcher) :
    web.Steady f fun url => (web.lookup f url).1 := by
  -- in every world with these pages a lookup gives the same, and leaves the pages as they are
  have alike (url : String) : ∃ a, Gives (fun w => w.web.pages = web.pages) (fun _ => ([] : List Unit))
      (Fetch.text f url) a [] := by
    refine Fetch.text_induction (P := fun m => ∃ a, Gives (fun w => w.web.pages = web.pages) (fun _ => []) m a [])
      (fun a => ⟨a, Gives.pure a⟩) ?_ (fun request => ?_) f url
    · rintro α β m next ⟨a, first⟩ rest
      obtain ⟨b, rest⟩ := rest a
      exact ⟨b, first.bind rest⟩
    · refine ⟨(Web.take request.url web.pages).1, fun w same => ⟨?_, rfl, ?_⟩⟩
      · change (Web.take request.url w.web.pages).1 = _
        rw [same]
      · change (Web.take request.url w.web.pages).2 = _
        rw [same, IsFixed.take fixed]
  have keeps (other : Web) (same : other.pages = web.pages) (url : String) :
      (other.lookup f url).1 = (web.lookup f url).1 ∧ (other.lookup f url).2.pages = web.pages := by
    obtain ⟨a, given⟩ := alike url
    obtain ⟨answered, -, kept⟩ := given { web := other } same
    exact ⟨answered.trans (given { web } rfl).1.symm, kept⟩
  have after (before : List String) (other : Web) (same : other.pages = web.pages) :
      (other.afterLookups f before).pages = web.pages := by
    induction before generalizing other with
    | nil => exact same
    | cons url before ih => exact ih _ (keeps other same url).2
  exact fun before url => (keeps _ (after before web rfl) url).1

end Web

end MigrationMining
