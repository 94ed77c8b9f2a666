import MigrationMining.Proofs.NamedFiles

/-! A file that is written to and removed again, in a directory, as all that changes. -/

namespace MigrationMining

namespace FileStore
open MigrationMining.Path

variable {fs fs' fs'' : FileStore} {d : Path} {name : String} {content : ByteArray}

/-- Two trees differ at most in the file of a name in a directory, which can only differ if the way to it is open. -/
structure RewritesFile (d : Path) (name : String) (fs fs' : FileStore) : Prop where
  others : ∀ q ≠ (d / name).place, fs'.node? q = fs.node? q
  directory : fs'.node? (d / name).place = some .directory ↔ fs.node? (d / name).place = some .directory
  closed : ¬ fs.Opens d → fs'.node? (d / name).place = fs.node? (d / name).place

namespace RewritesFile

theorem refl (fs : FileStore) : RewritesFile d name fs fs := ⟨fun _ _ => rfl, .rfl, fun _ => rfl⟩

theorem node?_eq_directory_iff (rewrites : RewritesFile d name fs fs') (q : Place) :
    fs'.node? q = some .directory ↔ fs.node? q = some .directory := by
  by_cases here : q = (d / name).place
  · rw [here]
    exact rewrites.directory
  · rw [rewrites.others q here]

theorem opens_iff (rewrites : RewritesFile d name fs fs') : fs'.Opens d ↔ fs.Opens d :=
  ⟨.of_keepsDirectories fun q => (rewrites.node?_eq_directory_iff q).1,
    .of_keepsDirectories fun q => (rewrites.node?_eq_directory_iff q).2⟩

theorem trans (first : RewritesFile d name fs fs') (second : RewritesFile d name fs' fs'') :
    RewritesFile d name fs fs'' where
  others q other := (second.others q other).trans (first.others q other)
  directory := second.directory.trans first.directory
  closed shut := (second.closed (mt first.opens_iff.1 shut)).trans (first.closed shut)

theorem put (free : fs.node? (d / name).place ≠ some .directory) (opens : fs.Opens d) (content : ByteArray)
    (modified : Int) : RewritesFile d name fs (fs.put (d / name).place (.file content modified)) where
  others q other := node?_put_of_ne fs other _
  directory := by
    rw [node?_put, isFixedDirectory_of_node? free]
    simp [free]
  closed shut := absurd opens shut

theorem writeBytes (plain : PlainName name) (written : fs.writeBytes (d / name) content = .ok fs') :
    RewritesFile d name fs fs' := by
  obtain ⟨opens, free, rfl⟩ := (writeBytes_div plain).1 written
  exact put free opens content fs.clock

theorem remove (plain : PlainName name) (removed : fs.remove (d / name) = .ok fs') : RewritesFile d name fs fs' := by
  obtain ⟨there, rfl⟩ := (remove_div plain).1 removed
  obtain ⟨opens, content, held⟩ := (isFile_div plain).1 there
  obtain ⟨modified, held⟩ := contentAt?_eq_some.1 held
  refine ⟨fun q other => node?_erase_of_ne fs other, ?_, fun shut => absurd opens shut⟩
  have free : fs.node? (d / name).place ≠ some .directory := by simp [held]
  rw [node?_erase_self fs (isFixedDirectory_of_node? free)]
  simp [held]

theorem exists_writeBytes_iff (rewrites : RewritesFile d name fs fs') (plain : PlainName name)
    (content content' : ByteArray) : (∃ written, fs'.writeBytes (d / name) content = .ok written) ↔
      ∃ written, fs.writeBytes (d / name) content' = .ok written := by
  rw [exists_writeBytes_div plain, exists_writeBytes_div plain, rewrites.opens_iff, ne_eq, ne_eq, rewrites.directory]

theorem contentAt?_eq (rewrites : RewritesFile d name fs fs') {q : Place} (other : q ≠ (d / name).place) :
    fs'.contentAt? q = fs.contentAt? q := by
  rw [contentAt?, rewrites.others q other, contentAt?]

theorem contentAt?_of_not_isFile (rewrites : RewritesFile d name fs fs') (plain : PlainName name)
    (gone : fs'.isFile (d / name) = false) {q : Place} (held : fs'.contentAt? q = some content) :
    fs.contentAt? q = some content := by
  by_cases here : q = (d / name).place
  · subst here
    have shut : ¬ fs'.Opens d := by
      intro opens
      rw [(isFile_div_eq_false_iff plain).1 gone opens] at held
      cases held
    rw [contentAt?, rewrites.closed (mt rewrites.opens_iff.2 shut)] at held
    exact held
  · rw [← rewrites.contentAt?_eq here, held]

theorem of_rename {part : String} (plain : PlainName part) (plain' : PlainName name)
    (renamed : fs.rename (d / part) (d / name) = .ok fs') (held : fs.contentAt? (d / part).place = some content) :
    ∃ erased, RewritesFile d part fs erased ∧ erased.contentAt? (d / part).place = none ∧
      RewritesFile d name erased fs' ∧ fs'.contentAt? (d / name).place = some content := by
  obtain ⟨free, opens, content', modified, node, rfl⟩ := (rename_div plain plain').1 renamed
  obtain rfl : content' = content := by simpa [contentAt?, node] using held
  have file : fs.isFile (d / part) := (isFile_div plain).2 ⟨opens, _, held⟩
  have erased : RewritesFile d part fs (fs.erase (d / part).place) := .remove plain ((remove_div plain).2 ⟨file, rfl⟩)
  have free := mt (erased.node?_eq_directory_iff (d / name).place).1 free
  refine ⟨_, erased, ?_, put free (erased.opens_iff.2 opens) _ modified, contentAt?_eq_some.2 ⟨modified, ?_⟩⟩
  · refine Option.eq_none_iff_forall_ne_some.2 fun found there => ?_
    exact absurd rfl (content_of_erase there).1
  · rw [node?_put, isFixedDirectory_of_node? free, if_neg Bool.false_ne_true, if_pos rfl]

end RewritesFile
end FileStore

/-- The files differ at most in the one of that name in the directory, and nothing is reported. -/
structure World.RewritesFile (d : Path) (name : String) (w w' : World) : Prop where
  files : w.files.RewritesFile d name w'.files
  log : w'.log = w.log

namespace World.RewritesFile

variable {d : Path} {name : String}

theorem refl (w : World) : RewritesFile d name w w := ⟨.refl w.files, rfl⟩

theorem trans (u v w : World) (first : RewritesFile d name u v) (second : RewritesFile d name v w) :
    RewritesFile d name u w :=
  ⟨first.files.trans second.files, second.log.trans first.log⟩

theorem downloadOnce (plain : Path.PlainName name) (client : Client) (url : String) :
    Leads (RewritesFile d name) (Fetch.downloadOnce client url (d / name)) :=
  Leads.downloadOnce refl trans (fun w _ => ⟨.refl w.files, rfl⟩) fun _ _ _ written =>
    ⟨.writeBytes plain written, rfl⟩

theorem discard (plain : Path.PlainName name) : Leads (RewritesFile d name) (Fetch.discard (d / name)) :=
  Leads.discard refl trans fun _ _ removed => ⟨.remove plain removed, rfl⟩

end World.RewritesFile

/-- What a download that ends leaves as it was: everything but the target, if the file that it wrote to is gone. -/
structure World.CleansUp (d : Path) (name part : String) (w w' : World) : Prop where
  log : w'.log = w.log
  opens : w'.files.Opens d ↔ w.files.Opens d
  gone : w'.files.isFile (d / part) = false
  old : ∀ q ≠ (d / name).place, ∀ content,
    w'.files.contentAt? q = some content → w.files.contentAt? q = some content

theorem World.RewritesFile.cleansUp {d : Path} {part : String} {w w' : World} (rewrites : RewritesFile d part w w')
    (name : String) (plain : Path.PlainName part) (gone : w'.files.isFile (d / part) = false) :
    World.CleansUp d name part w w' where
  log := rewrites.log
  opens := rewrites.files.opens_iff
  gone := gone
  old _ _ _ := rewrites.files.contentAt?_of_not_isFile plain gone

namespace World.CleansUp

variable {d : Path} {name part : String} {w v w' : World}

theorem of_begun {n : Nat} (cleansUp : CleansUp d name part { w with downloads := n } w') : CleansUp d name part w w' :=
  ⟨cleansUp.log, cleansUp.opens, cleansUp.gone, cleansUp.old⟩

theorem of_rewritesFile (rewrites : RewritesFile d part w v) (cleansUp : CleansUp d name part v w')
    (plain : Path.PlainName part) (opens : w.files.Opens d) : CleansUp d name part w w' where
  log := cleansUp.log.trans rewrites.log
  opens := cleansUp.opens.trans rewrites.files.opens_iff
  gone := cleansUp.gone
  old q other content held := by
    have opens' := (cleansUp.opens.trans rewrites.files.opens_iff).2 opens
    have apart : q ≠ (d / part).place := by
      rintro rfl
      rw [(FileStore.isFile_div_eq_false_iff plain).1 cleansUp.gone opens'] at held
      cases held
    rw [← rewrites.files.contentAt?_eq apart]
    exact cleansUp.old q other content held

theorem of_rename {files : FileStore} {content : ByteArray} (plain : Path.PlainName part) (plain' : Path.PlainName name)
    (different : part ≠ name) (renamed : w.files.rename (d / part) (d / name) = .ok files)
    (held : w.files.contentAt? (d / part).place = some content) : CleansUp d name part w { w with files } := by
  obtain ⟨erased, first, none, second, -⟩ := FileStore.RewritesFile.of_rename plain plain' renamed held
  have apart := Path.place_div_ne d plain plain' different
  refine ⟨rfl, second.opens_iff.trans first.opens_iff, ?_, fun q other found there => ?_⟩
  · rw [FileStore.isFile_div_eq_false_iff plain]
    exact fun _ => (second.contentAt?_eq apart).trans none
  · rw [second.contentAt?_eq other] at there
    by_cases here : q = (d / part).place
    · rw [here, none] at there
      cases there
    · rwa [← first.contentAt?_eq here]

end World.CleansUp

end MigrationMining
