import MigrationMining.Proofs.LoneFetch
import MigrationMining.Proofs.ScratchFiles
import MigrationMining.Proofs.UncoveredTargets
import MigrationMining.Proofs.WholeResponses

/-! What is left by a fetch of an archive that runs alone, whatever the web answers and wherever a body breaks off: the
whole archive at its place, or nothing there and a diagnostic, and in no case the file that the body was written to. -/

namespace MigrationMining

/-- The responses to the requests of a URL are passing until, after that many, one is whole with that body; the second web
is the one that is left then. -/
def Web.Gets (client : Client) (url : String) (n : Nat) (body : ByteArray) (web web' : Web) : Prop :=
  ∃ u, client.request url = .ok u ∧ (∀ i < n, (web.reply ⟨.get, u⟩ i).isPassing) ∧
    (web.reply ⟨.get, u⟩ n).whole? = some body ∧ web' = web.after ⟨.get, u⟩ (n + 1)

namespace Fetch
open MigrationMining.Path

variable {d : Path} {name part : String} {client : Client} {url u : String} {policy : RetryPolicy} {w : World} {size : Nat}

theorem web_after (asked : client.request url = .ok u) (file : Path) (w : World) (n : Nat) :
    (RetryPolicy.after (downloadOnce client url file) w n).web = w.web.after ⟨.get, u⟩ n := by
  induction n with
  | zero => rfl
  | succ n ih => rw [RetryPolicy.after_succ, web_downloadOnce asked, ih, Web.after_succ]

theorem rewritesFile_after (plain : PlainName part) (client : Client) (url : String) (w : World) (n : Nat) :
    World.RewritesFile d part w (RetryPolicy.after (downloadOnce client url (d / part)) w n) := by
  induction n with
  | zero => exact .refl w
  | succ n ih =>
    rw [RetryPolicy.after_succ]
    exact ih.trans _ _ _ (World.RewritesFile.downloadOnce plain client url _)

theorem rewritesFile_run (plain : PlainName part) (client : Client) (policy : RetryPolicy) (url : String) :
    World.Leads (World.RewritesFile d part) (policy.run url (downloadOnce client url (d / part))) :=
  .attemptFrom .refl .trans (World.RewritesFile.downloadOnce plain client url) policy.limit 0

theorem of_run_eq_ok (plain : PlainName part) {v : World}
    (done : policy.run url (downloadOnce client url (d / part)) w = (.ok size, v)) :
    ∃ n < policy.limit, ∃ body, Web.Gets client url n body w.web v.web ∧
      (∃ files, w.files.writeBytes (d / part) body = .ok files) ∧ v.files.Opens d ∧
      v.files.contentAt? (d / part).place = some body := by
  rcases policy.run_cases url (downloadOnce client url (d / part)) w with ⟨n, allowed, before, -, last⟩ | ⟨-, exhausted⟩
  · rw [done] at last
    cases request : client.request url with
    | error reason =>
      cases last.trans
        (downloadOnce_of_refused request (d / part) (RetryPolicy.after (downloadOnce client url (d / part)) w n))
    | ok u =>
      have web := web_after request (d / part) w
      obtain ⟨body, whole, written⟩ := of_downloadOnce_eq_ok request (congrArg Prod.fst last).symm
      have writable := ((rewritesFile_after plain client url w n).files.exists_writeBytes_iff plain _ body).1 ⟨_, written⟩
      rw [web] at whole
      have made : v.web = w.web.after ⟨.get, u⟩ (n + 1) := by
        have same : v = _ := congrArg Prod.snd last
        rw [same, web_downloadOnce request, web, Web.after_succ]
      have passing : ∀ i < n, (w.web.reply ⟨.get, u⟩ i).isPassing := by
        intro i lt
        have passing := isPassing_of_isTransient request (before i lt)
        rwa [web] at passing
      rw [← last] at written
      refine ⟨n, allowed, body, ⟨u, request, passing, whole, made⟩, writable, ?_⟩
      exact (FileStore.readBytes_div plain).1 (FileStore.readBytes_of_writeBytes written)
  · cases done.symm.trans exhausted

theorem run_of_gets (plain : PlainName part) {n : Nat} {body : ByteArray} {web : Web} (allowed : n < policy.limit)
    (gets : Web.Gets client url n body w.web web) (writable : ∃ files, w.files.writeBytes (d / part) body = .ok files) :
    (policy.run url (downloadOnce client url (d / part)) w).1 = .ok body.size := by
  obtain ⟨u, request, passing, whole, -⟩ := gets
  have web := web_after request (d / part) w
  have writable (i : Nat) (content : ByteArray) : ∃ files,
      (RetryPolicy.after (downloadOnce client url (d / part)) w i).files.writeBytes (d / part) content = .ok files :=
    ((rewritesFile_after plain client url w i).files.exists_writeBytes_iff plain content _).2 writable
  have before : ∀ i < n, RetryPolicy.isTransient (RetryPolicy.outcome (downloadOnce client url (d / part)) w i) := by
    intro i lt
    have passing := passing i lt
    rw [Web.reply, ← web] at passing
    exact isTransient_of_isPassing (writable i) request passing
  have final : RetryPolicy.outcome (downloadOnce client url (d / part)) w n = .ok body.size := by
    rw [Web.reply, ← web] at whole
    exact downloadOnce_of_whole (writable n) request whole
  rw [policy.run_of_final url before (by simp [final, RetryPolicy.isTransient]) allowed, final]

theorem discard_of_isFile (plain : PlainName part) (there : w.files.isFile (d / part)) :
    discard (d / part) w = ((), { w with files := w.files.erase (d / part).place }) := by
  have removed : w.files.remove (d / part) = _ := (FileStore.remove_div plain).2 ⟨there, rfl⟩
  exact Services.bind_run_eq_iff.2 ⟨_, _, World.change_of_eq_ok (f := (·.remove (d / part))) removed, rfl⟩

theorem isFile_discard (plain : PlainName part) (w : World) :
    (discard (d / part) w).2.files.isFile (d / part) = false := by
  by_cases there : w.files.isFile (d / part)
  · rw [discard_of_isFile plain there]
    rw [FileStore.isFile_div_eq_false_iff plain]
    refine fun _ => Option.eq_none_iff_forall_ne_some.2 fun content held => ?_
    exact absurd rfl (FileStore.content_of_erase held).1
  · cases removed : w.files.remove (d / part) with
    | ok files => exact absurd ((FileStore.remove_div plain).1 removed).1 there
    | error e =>
      have kept : discard (d / part) w = ((), w) :=
        Services.bind_run_eq_iff.2 ⟨_, _, World.change_of_eq_error removed, rfl⟩
      rw [kept]
      simpa using there

theorem install_of_free (size : Nat) (plain : PlainName name) (plain' : PlainName part) (different : part ≠ name)
    {content : ByteArray} (opens : w.files.Opens d) (held : w.files.contentAt? (d / part).place = some content)
    (free : w.files.node? (d / name).place ≠ some .directory) :
    ∃ files, install (d / part) (d / name) size w = (.ok size, { w with files }) ∧
      World.CleansUp d name part w { w with files } ∧ files.readBytes (d / name) = .ok content := by
  obtain ⟨modified, node⟩ := FileStore.contentAt?_eq_some.1 held
  have renamed := (FileStore.rename_div plain' plain).2 ⟨free, opens, content, modified, node, rfl⟩
  have cleansUp := World.CleansUp.of_rename plain' plain different renamed held
  obtain ⟨erased, -, -, -, moved⟩ := FileStore.RewritesFile.of_rename plain' plain renamed held
  have changed := World.change_of_eq_ok (f := (·.rename (d / part) (d / name))) renamed
  refine ⟨_, Services.bind_run_eq_iff.2 ⟨_, _, changed, rfl⟩, cleansUp, ?_⟩
  exact (FileStore.readBytes_div plain).2 ⟨cleansUp.opens.2 opens, moved⟩

/-- A complete file is discarded if the target is the name of a directory, and the download counts as done. -/
theorem install_of_directory (size : Nat) (plain : PlainName name) (plain' : PlainName part)
    {content : ByteArray} (opens : w.files.Opens d) (held : w.files.contentAt? (d / part).place = some content)
    (directory : w.files.node? (d / name).place = some .directory) :
    ∃ files, install (d / part) (d / name) size w = (.ok size, { w with files }) ∧
      World.CleansUp d name part w { w with files } ∧ files.readBytes (d / name) = .error .isADirectory := by
  have there := (FileStore.isFile_div plain').2 ⟨opens, content, held⟩
  have discarded := discard_of_isFile plain' there
  have rewrites := World.RewritesFile.discard plain' (d := d) w
  have gone := isFile_discard plain' (d := d) w
  rw [discarded] at rewrites gone
  have stat : (w.files.erase (d / part).place).stat (d / name) = .ok .directory :=
    (FileStore.stat_div plain).2 ⟨rewrites.files.opens_iff.2 opens,
      (rewrites.files.node?_eq_directory_iff _).2 directory⟩
  refine ⟨_, ?_, rewrites.cleansUp name plain' gone, by rw [FileStore.readBytes, stat]⟩
  cases renamed : w.files.rename (d / part) (d / name) with
  | ok files => exact absurd directory ((FileStore.rename_div plain' plain).1 renamed).1
  | error e =>
    have failed := World.change_of_eq_error (f := (·.rename (d / part) (d / name))) renamed
    refine Services.bind_run_eq_iff.2 ⟨_, _, failed, ?_⟩
    refine Services.bind_run_eq_iff.2 ⟨_, _, discarded, ?_⟩
    have still : (w.files.erase (d / part).place).exists? (d / name) := by
      rw [FileStore.exists?, stat]
      rfl
    refine Services.bind_run_eq_iff.2 ⟨_, _, rfl, ?_⟩
    rw [if_pos still]
    rfl

theorem download_of_run {f : Fetcher} (plain : PlainName name) {answer : Except FetchFailure Nat} {v : World}
    (attempts : f.policy.run url (downloadOnce f.client url (d / partName name w.process w.downloads))
      { w with downloads := w.downloads + 1 } = (answer, v)) :
    download f url (d / name) w = Repository.finish (d / name) (d / partName name w.process w.downloads) answer v := by
  refine Services.bind_run_eq_iff.2 ⟨w, w, rfl, Services.bind_run_eq_iff.2 ⟨(), _, rfl, ?_⟩⟩
  rw [scratch_div d plain]
  refine Services.bind_run_eq_iff.2 ⟨_, _, attempts, ?_⟩
  cases answer <;> rfl

/-- A download that can write its file gets a whole body, if one is to be had, and leaves it at the target, unless that is
the name of a directory. Otherwise it fails and leaves the target as it is. -/
theorem download_cases (d : Path) (plain : PlainName name) (f : Fetcher) (url : String) (w : World) :
    ∃ w', World.CleansUp d name (partName name w.process w.downloads) w w' ∧
      ((∃ size, ∃ n < f.policy.limit, ∃ body, download f url (d / name) w = (.ok size, w') ∧
          Web.Gets f.client url n body w.web w'.web ∧
          (∃ files, w.files.writeBytes (d / partName name w.process w.downloads) body = .ok files) ∧
          (w'.files.readBytes (d / name) = .ok body ∨
            w.files.exists? (d / name) ∧ w'.files.readBytes (d / name) = .error .isADirectory)) ∨
        ∃ e, download f url (d / name) w = (.error e, w') ∧
          (∀ n < f.policy.limit, ∀ body web, Web.Gets f.client url n body w.web web →
            ¬ ∃ files, w.files.writeBytes (d / partName name w.process w.downloads) body = .ok files) ∧
          w'.files.exists? (d / name) = w.files.exists? (d / name)) := by
  have plain' := plainName_partName plain w.process w.downloads
  have different := partName_ne name w.process w.downloads
  rcases attempts : f.policy.run url (downloadOnce f.client url (d / partName name w.process w.downloads))
    { w with downloads := w.downloads + 1 } with ⟨answer, v⟩
  rw [download_of_run plain attempts]
  generalize partName name w.process w.downloads = part at plain' different attempts ⊢
  have apart := place_div_ne d plain plain' different.symm
  have rewrites := rewritesFile_run plain' f.client f.policy url (d := d) { w with downloads := w.downloads + 1 }
  rw [attempts] at rewrites
  cases answer with
  | error e =>
    have discarded := rewrites.trans _ _ _ (World.RewritesFile.discard plain' v)
    have cleansUp := discarded.cleansUp name plain' (isFile_discard plain' v)
    refine ⟨_, cleansUp.of_begun, .inr ⟨e, rfl, fun n allowed body web gets writable => ?_, ?_⟩⟩
    · have succeeds := run_of_gets (w := { w with downloads := w.downloads + 1 }) plain' allowed gets writable
      rw [attempts] at succeeds
      cases succeeds
    · rw [Bool.eq_iff_iff, FileStore.exists?_div plain, FileStore.exists?_div plain, discarded.files.opens_iff,
        discarded.files.others _ apart]
  | ok size =>
    obtain ⟨n, allowed, body, gets, writable, opens, held⟩ := of_run_eq_ok plain' attempts
    -- with the file written and the way open, only a directory at the target is left to keep it from being moved
    have opens_before := rewrites.files.opens_iff.1 opens
    by_cases directory : v.files.node? (d / name).place = some .directory
    · obtain ⟨files, installed, cleansUp, read⟩ := install_of_directory size plain plain' opens held directory
      have cleansUp := (cleansUp.of_rewritesFile rewrites plain' opens_before).of_begun
      refine ⟨_, cleansUp, .inl ⟨size, n, allowed, body, installed, gets, writable, .inr ⟨?_, read⟩⟩⟩
      refine (FileStore.exists?_div plain).2 ⟨opens_before, .directory, ?_⟩
      exact (rewrites.files.node?_eq_directory_iff _).1 directory
    · obtain ⟨files, installed, cleansUp, read⟩ :=
        install_of_free size plain plain' different opens held directory
      have cleansUp := (cleansUp.of_rewritesFile rewrites plain' opens_before).of_begun
      exact ⟨_, cleansUp, .inl ⟨size, n, allowed, body, installed, gets, writable, .inl read⟩⟩

end Fetch

namespace Repository

variable {r : Repository} {c : Coordinate} {root target : Path} {w v : World} {outcome : Except FetchFailure Nat}

theorem archive_of_exists (present : w.files.exists? (Layout.archivePath root c "jar")) :
    r.archive c root w = (some (Layout.archivePath root c "jar"), w) := by
  refine Services.bind_run_eq_iff.2 ⟨w, w, rfl, ?_⟩
  rw [if_pos present]
  rfl

theorem archive_of_download (absent : w.files.exists? (Layout.archivePath root c "jar") = false)
    (download : r.downloadArchive c (Layout.archivePath root c "jar") w = (outcome, v)) :
    r.archive c root w = found c (Layout.archivePath root c "jar") outcome v := by
  refine Services.bind_run_eq_iff.2 ⟨w, w, rfl, ?_⟩
  rw [if_neg (by simp [absent])]
  refine Services.bind_run_eq_iff.2 ⟨_, _, download, ?_⟩
  cases outcome <;> rfl

theorem downloadArchive_of_error {e : FileStore.Interrupted}
    (failed : w.files.makeDirectories ((FileStore.directoryOf? target).getD ⟨""⟩) = .error e) :
    r.downloadArchive c target w = (.error (.file e.cause.message), { w with files := e.files }) :=
  Services.bind_run_eq_iff.2 ⟨_, _, World.changeInSteps_of_eq_error (f := (·.makeDirectories _)) failed, rfl⟩

theorem downloadArchive_of_made {files : FileStore}
    (made : w.files.makeDirectories ((FileStore.directoryOf? target).getD ⟨""⟩) = .ok files) :
    r.downloadArchive c target w = Fetch.download r.fetcher (Layout.fileUrl r.url c "jar") target { w with files } :=
  Services.bind_run_eq_iff.2 ⟨_, _, World.changeInSteps_of_eq_ok (f := (·.makeDirectories _)) made, rfl⟩

/-- How a fetch of an archive ends that is not there. If one of the requests that may be made gets a whole body, and its
file can be written, then the body is at the target, unless a directory has come into being there. Otherwise the fetch fails,
and only what has come into being with the directory of the target can be there. -/
inductive Ends (r : Repository) (c : Coordinate) (target : Path) (w : World) : Option Path → World → Prop where
  | stored {n : Nat} {body : ByteArray} {w' : World} (few : n < r.policy.limit)
    (gets : Web.Gets r.client (Layout.fileUrl r.url c "jar") n body w.web w'.web)
    (takes : w.files.Takes target (Fetch.scratch target w.process w.downloads) body) (log : w'.log = w.log)
    (content : w'.files.readBytes target = .ok body ∨
      w.files.Uncovers target ∧ w'.files.readBytes target = .error .isADirectory) : Ends r c target w (some target) w'
  | failed {e : FetchFailure} {w' : World}
    (lost : ∀ n < r.policy.limit, ∀ body web, Web.Gets r.client (Layout.fileUrl r.url c "jar") n body w.web web →
      ¬ w.files.Takes target (Fetch.scratch target w.process w.downloads) body)
    (log : w'.log = w.log ++ [e.diagnostic c.text])
    (there : w'.files.exists? target ↔ w.files.Uncovers target) : Ends r c target w none w'

theorem archive_of_absent (r : Repository) (absent : w.files.exists? (Layout.archivePath root c "jar") = false) :
    let target := Layout.archivePath root c "jar"
    ∃ answer w', r.archive c root w = (answer, w') ∧ r.Ends c target w answer w' ∧
      (w'.downloads ≠ w.downloads → w'.files.isFile (Fetch.scratch target w.process w.downloads) = false) ∧
      ∀ q ≠ target.place, ∀ content, w'.files.contentAt? q = some content → w.files.contentAt? q = some content := by
  intro target
  cases made : w.files.makeDirectories ((FileStore.directoryOf? target).getD ⟨""⟩) with
  | error e =>
    have covered := FileStore.not_uncovers_of_error made
    have still : e.files.exists? target = false := by
      obtain ⟨d, name, at_target, plain⟩ := Layout.exists_archivePath_eq_div root c
      change e.files.exists? (Layout.archivePath root c "jar") = false
      change w.files.makeDirectories ((FileStore.directoryOf? (Layout.archivePath root c "jar")).getD ⟨""⟩) = _ at made
      rw [at_target] at made ⊢
      exact FileStore.not_exists?_of_interrupted plain made
    have old (q : Place) (content : ByteArray) (held : e.files.contentAt? q = some content) :
        w.files.contentAt? q = some content :=
      FileStore.content_of_treeAfter_makeDirectories (p := (FileStore.directoryOf? target).getD ⟨""⟩) (by rwa [made])
    refine ⟨none, _, archive_of_download absent (downloadArchive_of_error made), ?_, fun begun => absurd rfl begun,
      fun q _ content => old q content⟩
    refine .failed (e := .file e.cause.message) (fun n few body web gets takes => ?_) rfl ?_
    · exact FileStore.not_takes_of_error made takes
    · exact iff_of_false (Bool.eq_false_iff.1 still) covered
  | ok files =>
    obtain ⟨d, name, at_target, plain⟩ := Layout.exists_archivePath_eq_div root c
    have uncovers := FileStore.uncovers_iff absent made
    have takes (content : ByteArray) : w.files.Takes target (Fetch.scratch target w.process w.downloads) content ↔
        ∃ written, files.writeBytes (Fetch.scratch target w.process w.downloads) content = .ok written := FileStore.takes_iff made
    obtain ⟨v, cleansUp, ends⟩ :=
      Fetch.download_cases d plain r.fetcher (Layout.fileUrl r.url c "jar") { w with files }
    have gone := cleansUp.gone
    have old := cleansUp.old
    rw [← Fetch.scratch_div d plain] at gone ends
    rw [← at_target] at ends gone old
    have run {outcome : Except FetchFailure Nat}
        (download : Fetch.download r.fetcher (Layout.fileUrl r.url c "jar") target { w with files } = (outcome, v)) :
        r.archive c root w = found c target outcome v :=
      archive_of_download absent ((downloadArchive_of_made made).trans download)
    have old' (q : Place) (other : q ≠ target.place) (content : ByteArray) (held : v.files.contentAt? q = some content) :
        w.files.contentAt? q = some content := FileStore.content_of_makeDirectories made (old q other content held)
    rcases ends with ⟨size, n, few, body, download, gets, writable, content⟩ | ⟨e, download, lost, kept⟩
    · rw [← uncovers] at content
      exact ⟨_, _, run download, .stored few gets ((takes _).2 writable) cleansUp.log content, fun _ => gone, old'⟩
    · have log : v.log ++ [e.diagnostic c.text] = w.log ++ [e.diagnostic c.text] := by rw [cleansUp.log]
      have there : v.files.exists? target ↔ w.files.Uncovers target := by rw [uncovers, ← kept]
      have failed : r.Ends c target w none { v with log := v.log ++ [e.diagnostic c.text] } :=
        .failed (fun n few body web gets taken => lost n few body web gets ((takes _).1 taken)) log there
      exact ⟨none, _, run download, failed, fun _ => gone, old'⟩

/-- In a tree something comes into being at the place of an archive with its directory only if the way to it goes up from
nothing. -/
theorem leavesNothing_of_uncovers (tree : w.files.IsTree) (uncovers : w.files.Uncovers (Layout.archivePath root c "jar")) :
    w.files.LeavesNothing (Layout.archivePath root c "jar") := by
  obtain ⟨d, name, at_target, plain⟩ := Layout.exists_archivePath_eq_div root c
  rw [at_target] at uncovers ⊢
  exact tree.leavesNothing_of_uncovers plain uncovers

/-- A fetch of an archive that runs alone changes nothing if there is something at the target. Otherwise it stores the
whole body of the last response, if there is one and its file can be written, or reports a failure, and something is at the
target afterwards if and only if it is the answer. Only what comes into being at the target with its directory is an
exception, which in a tree needs a path that goes up from nothing. No other file is new afterwards, and the one that a
download wrote to is gone. -/
theorem archive_whole_or_absent (r : Repository) (c : Coordinate) (root : Path) (w : World) :
    let target := Layout.archivePath root c "jar"
    let answer := (r.archive c root w).1
    let w' := (r.archive c root w).2
    (w.files.exists? target → answer = some target ∧ w' = w) ∧
    (w.files.exists? target = false → r.Ends c target w answer w') ∧
    (¬ w.files.Uncovers target → answer = if w'.files.exists? target then some target else none) ∧
    (w'.downloads ≠ w.downloads → w'.files.isFile (Fetch.scratch target w.process w.downloads) = false) ∧
    (∀ q ≠ target.place, ∀ content, w'.files.contentAt? q = some content → w.files.contentAt? q = some content) ∧
    (w.files.IsTree → w.files.Uncovers target → w.files.LeavesNothing target) ∧
    ∀ v : FetchWorld, v.world = w → (v.locks target).held = [] →
      ArchiveFetch.Leaves r { release := c, root } v answer w' := by
  have alone (v : FetchWorld) (here : v.world = w) (free : (v.locks (Layout.archivePath root c "jar")).held = []) :
      ArchiveFetch.Leaves r { release := c, root } v (r.archive c root w).1 (r.archive c root w).2 := by
    subst here
    exact ArchiveFetch.leaves_of_archive free Prod.mk.eta.symm
  intro target answer w'
  cases present : w.files.exists? target with
  | true =>
    have same : r.archive c root w = (some target, w) := archive_of_exists present
    have answer_eq : answer = some target := congrArg Prod.fst same
    have world_eq : w' = w := congrArg Prod.snd same
    refine ⟨fun _ => ⟨answer_eq, world_eq⟩, Bool.noConfusion, fun _ => ?_, ?_, ?_, leavesNothing_of_uncovers, alone⟩
    · rw [world_eq, if_pos present, answer_eq]
    · exact fun begun => absurd (congrArg World.downloads world_eq) begun
    · rw [world_eq]
      exact fun q _ content => id
  | false =>
    obtain ⟨answer', v, run, ends, gone, old⟩ := archive_of_absent r present
    obtain rfl : answer = answer' := congrArg Prod.fst run
    obtain rfl : w' = v := congrArg Prod.snd run
    refine ⟨Bool.noConfusion, fun _ => ends, fun covered => ?_, gone, old, leavesNothing_of_uncovers, alone⟩
    generalize answer = answer at ends
    cases ends with
    | stored few gets takes log content =>
      rcases content with read | ⟨uncovers, -⟩
      · rw [if_pos (FileStore.exists?_of_readBytes read)]
      · exact absurd uncovers covered
    | failed lost log there => rw [if_neg (mt there.1 covered)]

/-- A repository whose first responses for an archive are an error and a body that breaks off. -/
def brokenResponses : World where
  web := { pages := [("http://repo.test/m2/g/a/1/a-1.jar",
    [.answered 503 .empty true, .answered 200 "ja".toUTF8 false, .answered 200 "jar".toUTF8 true])] }

/-- The third response is stored if three attempts may be made, and nothing is left of the second if two may be made. -/
theorem archive_of_brokenResponses :
    let target := Layout.archivePath ⟨"store"⟩ ⟨"g", "a", "1"⟩ "jar"
    let fetched (cap : Nat) :=
      Repository.archive ⟨"http://repo.test/m2", "", ⟨.plain, ⟨0, some cap⟩⟩⟩ ⟨"g", "a", "1"⟩ ⟨"store"⟩ brokenResponses
    (fetched 3).1 = some target ∧ ((fetched 3).2.files.readText target).toOption = some "jar" ∧
      (fetched 2).1 = none ∧ (fetched 2).2.files.exists? target = false ∧
      (fetched 2).2.files.isFile (Fetch.scratch target brokenResponses.process brokenResponses.downloads) = false := by
  have covered : ¬ brokenResponses.files.Uncovers (Layout.archivePath ⟨"store"⟩ ⟨"g", "a", "1"⟩ "jar") := by
    intro uncovers
    have tree : brokenResponses.files.IsTree := FileStore.isTree_empty
    obtain ⟨ds, before, -⟩ := leavesNothing_of_uncovers tree uncovers
    exact absurd (before.subset (List.mem_append_right ds (List.mem_singleton_self _))) (by decide +kernel)
  have whole (cap : Nat) := archive_whole_or_absent ⟨"http://repo.test/m2", "", ⟨.plain, ⟨0, some cap⟩⟩⟩ ⟨"g", "a", "1"⟩ ⟨"store"⟩
    brokenResponses
  obtain ⟨-, -, found, -⟩ := whole 3
  obtain ⟨-, -, lost, gone, -⟩ := whole 2
  refine ⟨?_, by decide +kernel, ?_, by decide +kernel, ?_⟩
  · rw [found covered]
    exact if_pos (by decide +kernel)
  · rw [lost covered]
    exact if_neg (by decide +kernel)
  · beta_reduce
    exact gone (by decide +kernel)

/-- A release whose archive has a path that goes up out of its artifact, and a file at the place that this leads to. -/
def uncoveredArchive : World where
  files := (FileStore.save {} ⟨"store/g/a-...jar"⟩ "old").toOption.getD {}

/-- Nothing is found at the path while the directory of the artifact is missing; a failed fetch makes the directory, and
then the file is there. -/
theorem archive_of_uncoveredArchive :
    let target := Layout.archivePath ⟨"store"⟩ ⟨"g", "a", ".."⟩ "jar"
    let fetched :=
      Repository.archive ⟨"http://repo.test/m2", "", ⟨.plain, ⟨0, some 1⟩⟩⟩ ⟨"g", "a", ".."⟩ ⟨"store"⟩ uncoveredArchive
    uncoveredArchive.files.exists? target = false ∧ fetched.1 = none ∧ fetched.2.log.length = 1 ∧
      fetched.2.files.exists? target ∧ (fetched.2.files.readText target).toOption = some "old" := by
  decide +kernel

end Repository
end MigrationMining
