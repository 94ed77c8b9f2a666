import MigrationMining.Pipeline.Setup
import MigrationMining.Proofs.Requests
import MigrationMining.Proofs.ServiceTrace

/-! What the services of a setup do to the world: whatever requests and reports do, unless they store an archive, extract a
code model or save a file. -/

namespace MigrationMining

/-- A text is saved, or some of the steps to it are made and the failure of a file is told. -/
theorem Setup.save_cases (setup : Setup) (x : Extractor) (path : Path) (text : String) (w : World) :
    (∃ files, w.files.save path text = .ok files ∧ (setup.services x).save path text w = (.ok (), { w with files })) ∨
    ∃ e, w.files.save path text = .error e ∧
      (setup.services x).save path text w = (.error e.cause.failure, { w with files := e.files }) := by
  have whole : (setup.services x).save path text w = ((World.changeInSteps (·.save path text) w).1.mapError (·.failure),
      (World.changeInSteps (·.save path text) w).2) := rfl
  cases saved : w.files.save path text with
  | ok files =>
    rw [World.changeInSteps_of_eq_ok saved] at whole
    exact .inl ⟨files, rfl, whole⟩
  | error e =>
    rw [World.changeInSteps_of_eq_error saved] at whole
    exact .inr ⟨e, rfl, whole⟩

theorem Setup.files_of_save (setup : Setup) (x : Extractor) {path : Path} {text : String} {w w' : World}
    (saved : (setup.services x).save path text w = (.ok (), w')) : w.files.save path text = .ok w'.files := by
  rcases setup.save_cases x path text w with ⟨files, done, whole⟩ | ⟨e, -, whole⟩
  · obtain ⟨-, rfl⟩ := Prod.mk.inj (whole.symm.trans saved)
    exact done
  · cases (Prod.mk.inj (whole.symm.trans saved)).1

/-- A relation between worlds that allows requests and reports, one after the other. -/
structure World.Allows (R : World → World → Prop) : Prop where
  refl : ∀ w, R w w
  trans : ∀ u v w, R u v → R v w → R u w
  asks : ∀ w web, R w { w with web }
  reports : ∀ w (log : DiagnosticLog), R w { w with log := w.log ++ log }

namespace World.Allows
open World.Leads

variable {R : World → World → Prop} (allows : Allows R)

include allows

theorem report (d : Diagnostic) : Leads R (World.report d) := fun w => allows.reports w [d]

theorem reporting {α : Type} (found : FileStore → α × DiagnosticLog) : Leads R (World.reporting found) :=
  fun w => allows.reports w (found w.files).2

theorem text (f : Fetcher) (url : String) : Leads R (Fetch.text f url) := by
  refine attemptFrom allows.refl allows.trans ?_ f.policy.limit 0
  refine bind allows.trans (getOnce allows.asks f.client url) fun answer => ?_
  rcases answer with e | ⟨body, isWhole⟩ <;> exact pure allows.refl _

theorem probe (f : Fetcher) (url : String) : Leads R (Fetch.probe f url) := by
  refine bind allows.trans (attemptFrom allows.refl allows.trans ?_ f.policy.limit 0) fun answer => ?_
  · refine bind allows.trans ?_ fun response => ?_
    · intro w
      obtain ⟨web, asked⟩ := Fetch.asks_ask f.client .head url w
      rw [asked]
      exact allows.asks w web
    · rcases response with e | (⟨status, body, isWhole⟩ | _) <;> exact pure allows.refl _
  · cases answer with
    | ok _ => exact pure allows.refl _
    | error e => exact pure allows.refl _

section Repository

variable (r : Repository)

theorem releases (p : Project) : Leads R (r.releases p) := by
  refine bind allows.trans (allows.text _ _) fun answer => ?_
  cases answer with
  | ok xml => exact pure allows.refl _
  | error e => exact bind allows.trans (allows.report _) fun _ => pure allows.refl _

theorem pom (c : Coordinate) : Leads R (r.pom c) := by
  refine bind allows.trans (allows.text _ _) fun answer => ?_
  cases answer <;> exact pure allows.refl _

theorem dependencies (c : Coordinate) : Leads R (r.dependencies c) := by
  refine bind allows.trans (allows.pom r c) fun answer => ?_
  cases answer with
  | ok pom => exact pure allows.refl _
  | error e => exact bind allows.trans (allows.report _) fun _ => pure allows.refl _

theorem isListed (c : Coordinate) : Leads R (r.isListed c) := by
  refine bind allows.trans (allows.probe _ _) fun answer => ?_
  cases answer with
  | ok found => exact pure allows.refl _
  | error e => exact bind allows.trans (allows.report _) fun _ => pure allows.refl _

theorem listedClients (library : Coordinate) (page : Nat) : Leads R (r.listedClients library page) := by
  refine bind allows.trans (allows.text _ _) fun answer => ?_
  cases answer with
  | ok html => exact pure allows.refl _
  | error e =>
    dsimp only
    split
    · exact bind allows.trans (allows.report _) fun _ => pure allows.refl _
    · exact pure allows.refl _

theorem dependentsAmong (library : Coordinate) (cs : List Coordinate) : Leads R (r.dependentsAmong library cs) := by
  induction cs with
  | nil => exact pure allows.refl _
  | cons c cs ih =>
    exact bind allows.trans (allows.dependencies r c) fun _ => bind allows.trans ih fun _ => pure allows.refl _

theorem dependentReleases (library : Coordinate) (ps : List Project) : Leads R (r.dependentReleases library ps) := by
  induction ps with
  | nil => exact pure allows.refl _
  | cons p ps ih =>
    refine bind allows.trans (allows.releases r p) fun cs => ?_
    exact bind allows.trans (allows.dependentsAmong r library cs) fun _ => bind allows.trans ih fun _ => pure allows.refl _

theorem clients (library : Coordinate) : Leads R (r.clients library) := by
  have from_page (limit page : Nat) (seen : List Project) :
      Leads R (UsagePage.walkFrom (r.listedClients library) (r.dependentReleases library) limit page seen) := by
    induction limit generalizing page seen with
    | zero => exact pure allows.refl _
    | succ limit ih =>
      refine bind allows.trans (allows.listedClients r library page) fun listed => ?_
      dsimp only
      split
      · exact pure allows.refl _
      · exact bind allows.trans (allows.dependentReleases r library _) fun _ =>
          bind allows.trans (ih _ _) fun _ => pure allows.refl _
  exact from_page _ 1 []

end Repository

theorem linksTo {clients : Coordinate → StateM World (List Coordinate)} (each : ∀ c, Leads R (clients c))
    (versions : List Coordinate) : Leads R (Services.linksTo clients versions) := by
  induction versions with
  | nil => exact pure allows.refl _
  | cons v vs ih => exact bind allows.trans (each v) fun _ => bind allows.trans ih fun _ => pure allows.refl _

/-- The relation also allows what storing an archive at a path does to the files: directories are made for it, and files are
written beside it, removed and moved to it. -/
structure Stores (R : World → World → Prop) (target : Path) : Prop where
  begins : ∀ w n, R w { w with downloads := n }
  directories : ∀ w : World,
    R w { w with files := .treeAfter (w.files.makeDirectories ((FileStore.directoryOf? target).getD ⟨""⟩)) }
  writes : ∀ m n (w : World) content files,
    w.files.writeBytes (Fetch.scratch target m n) content = .ok files → R w { w with files }
  removes : ∀ m n (w : World) files, w.files.remove (Fetch.scratch target m n) = .ok files → R w { w with files }
  moves : ∀ m n (w : World) files, w.files.rename (Fetch.scratch target m n) target = .ok files → R w { w with files }

omit allows in
theorem Stores.of_files (begins : ∀ w n, R w { w with downloads := n }) (files : ∀ w files, R w { w with files })
    (target : Path) : Stores R target where
  begins := begins
  directories w := files w _
  writes _ _ w _ fs _ := files w fs
  removes _ _ w fs _ := files w fs
  moves _ _ w fs _ := files w fs

section Archive

variable {target : Path} (stores : Stores R target)

include stores

theorem install (m n size : Nat) : Leads R (Fetch.install (Fetch.scratch target m n) target size) := by
  refine bind allows.trans (Leads.change allows.refl (stores.moves m n)) fun moved => ?_
  cases moved with
  | ok _ => exact pure allows.refl _
  | error e =>
    refine bind allows.trans (discard allows.refl allows.trans (stores.removes m n)) fun _ => ?_
    exact bind allows.trans allows.refl fun _ => pure allows.refl _

theorem download (f : Fetcher) (url : String) : Leads R (Fetch.download f url target) := by
  refine bind allows.trans allows.refl fun w => bind allows.trans (fun v => stores.begins v _) fun _ => ?_
  refine bind allows.trans (attemptFrom allows.refl allows.trans ?_ f.policy.limit 0) fun answer => ?_
  · exact downloadOnce allows.refl allows.trans allows.asks (stores.writes _ _)
  · cases answer with
    | ok size => exact allows.install stores _ _ size
    | error e =>
      exact bind allows.trans (discard allows.refl allows.trans (stores.removes _ _)) fun _ => pure allows.refl _

end Archive

theorem archive {c : Coordinate} {root : Path} (stores : Stores R (Layout.archivePath root c "jar")) (r : Repository) :
    Leads R (r.archive c root) := by
  have directories : Leads R (World.changeInSteps
      (·.makeDirectories ((FileStore.directoryOf? (Layout.archivePath root c "jar")).getD ⟨""⟩))) := stores.directories
  refine bind allows.trans allows.refl fun w => ?_
  split
  · exact pure allows.refl _
  · refine bind allows.trans (bind allows.trans directories fun made => ?_) fun answer => ?_
    · cases made with
      | ok _ => exact allows.download stores _ _
      | error e => exact pure allows.refl _
    · cases answer with
      | ok _ => exact pure allows.refl _
      | error e => exact bind allows.trans (allows.report _) fun _ => pure allows.refl _

/-- A service leads where the relation allows if it does when it stores an archive, extracts a code model or saves a
file. -/
theorem of_step {setup : Setup} {x : Extractor} {w w' : World} {e : Exchange}
    (step : (setup.services x).Step w e w')
    (archive : ∀ c root found, e = .archive c root found → Leads R (setup.archives.archive c root))
    (extract : ∀ snapshot : Snapshot, R w
      { w with files := (x.model snapshot ⟨w.files, w.models⟩).2.files, models := (x.model snapshot ⟨w.files, w.models⟩).2.cache })
    (save : ∀ path text answer, e = .save path text answer →
      R w { w with files := FileStore.treeAfter (w.files.save path text) }) : R w w' := by
  have led {α : Type} {m : StateM World α} (leads : Leads R m) {a : α} (ran : m w = (a, w')) : R w w' := by
    have here := leads w
    rwa [ran] at here
  cases e with
  | releases p found =>
    refine led (m := setup.source.releases p) ?_ step
    cases setup.source with
    | repository r => exact allows.releases r p
    | graph g => exact allows.reporting _
  | clients c found =>
    refine led (m := setup.source.clients c) ?_ step
    cases setup.source with
    | repository r => exact allows.clients r c
    | graph g => exact allows.reporting _
  | links p found =>
    refine led (m := setup.source.links p) ?_ step
    cases setup.source with
    | repository r => exact bind allows.trans (allows.releases r p) fun vs => allows.linksTo (allows.clients r) vs
    | graph g => exact allows.reporting _
  | isListed c found =>
    refine led (m := setup.source.isListed c) ?_ step
    cases setup.source with
    | repository r => exact allows.isListed r c
    | graph g => exact allows.reporting _
  | dependencies c found =>
    refine led (m := setup.source.dependencies c) ?_ step
    cases setup.source with
    | repository r => exact allows.dependencies r c
    | graph g => exact allows.reporting _
  | archive c root found => exact led (archive c root found rfl) step
  | declarations snapshot found | callGraph snapshot found =>
    obtain ⟨-, rfl⟩ := Prod.mk.inj step.symm
    exact extract snapshot
  | save path text answer =>
    obtain ⟨-, rfl⟩ := Prod.mk.inj step.symm
    exact save path text answer rfl
  | report d => exact led (allows.report d) step
  | cancelled found => exact led (pure allows.refl false) step

end World.Allows
end MigrationMining
