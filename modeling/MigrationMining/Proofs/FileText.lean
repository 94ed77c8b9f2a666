import MigrationMining.FileStore

/-! What stands at the places of a tree after a change, and in a file after it has been written. -/

namespace MigrationMining

theorem bind_eq_ok_iff {ε α β : Type} {x : Except ε α} {f : α → Except ε β} {b : β} :
    (x >>= f) = .ok b ↔ ∃ a, x = .ok a ∧ f a = .ok b := by
  cases x with
  | error e => simp [bind, Except.bind]
  | ok a => simp [bind, Except.bind]

theorem Text.fromUTF8?_toUTF8 (text : String) : String.fromUTF8? text.toUTF8 = some text := dif_pos text.isValidUTF8

namespace FileStore

/-- Every directory of one tree is a directory of another. -/
def KeepsDirectories (fs fs' : FileStore) : Prop :=
  ∀ place, fs.node? place = some .directory → fs'.node? place = some .directory

variable {fs fs' : FileStore} {place : Place} {p : Path} {content : ByteArray}

theorem requireDirectory_eq_ok_iff : fs.requireDirectory place = .ok () ↔ fs.node? place = some .directory := by
  unfold requireDirectory
  split <;> simp_all

namespace KeepsDirectories

theorem step (keeps : KeepsDirectories fs fs') {c : Path.Component} {next : Place}
    (h : fs.step place c = .ok next) : fs'.step place c = .ok next := by
  have through {target : Place} (ok : (fs.requireDirectory place).map (fun _ => target) = .ok next) :
      (fs'.requireDirectory place).map (fun _ => target) = .ok next := by
    cases here : fs.requireDirectory place with
    | error e => simp [here, Except.map] at ok
    | ok _ =>
      have there := requireDirectory_eq_ok_iff.2 (keeps place (requireDirectory_eq_ok_iff.1 here))
      rwa [there, ← here]
  cases c with
  | root => exact h
  | current => exact h
  | parent => exact through h
  | normal name => exact through h

theorem foldlM_step (keeps : KeepsDirectories fs fs') {cs : List Path.Component} {target : Place}
    (h : cs.foldlM fs.step place = .ok target) : cs.foldlM fs'.step place = .ok target := by
  induction cs generalizing place with
  | nil => exact h
  | cons c cs ih =>
    obtain ⟨next, first, rest⟩ := bind_eq_ok_iff.1 (List.foldlM_cons.symm.trans h)
    rw [List.foldlM_cons]
    exact bind_eq_ok_iff.2 ⟨next, keeps.step first, ih rest⟩

theorem locate (keeps : KeepsDirectories fs fs') (h : fs.locate p = .ok place) : fs'.locate p = .ok place := by
  unfold FileStore.locate at h ⊢
  split
  · simp_all
  · simp_all [keeps.foldlM_step]

end KeepsDirectories

theorem isFixedDirectory_of_node? (h : fs.node? place ≠ some .directory) : isFixedDirectory place = false := by
  cases fixed : isFixedDirectory place with
  | false => rfl
  | true => exact absurd (by simp [node?, fixed]) h

theorem find?_filter_ne (nodes : List (Place × FileNode)) {place q : Place} (other : q ≠ place) :
    (nodes.filter (·.1 ≠ place)).find? (·.1 = q) = nodes.find? (·.1 = q) := by
  rw [List.find?_filter]
  congr 1
  funext e
  by_cases at_q : e.1 = q <;> simp [at_q, other]

theorem node?_put (fs : FileStore) (place q : Place) (node : FileNode) : (fs.put place node).node? q =
    if isFixedDirectory q then some .directory else if q = place then some node else fs.node? q := by
  by_cases here : q = place
  · simp [node?, here, put]
  · have kept := find?_filter_ne fs.nodes here
    cases fixed : isFixedDirectory q with
    | true => simp [node?, fixed]
    | false =>
      simp only [node?, fixed, here, put, Bool.false_eq_true, if_false]
      rw [List.find?_cons_of_neg (by simpa using Ne.symm here), kept]

theorem node?_put_of_ne (fs : FileStore) {place q : Place} (other : q ≠ place) (node : FileNode) :
    (fs.put place node).node? q = fs.node? q := by
  rw [node?_put, if_neg other]
  split
  · next fixed => rw [node?, if_pos fixed]
  · rfl

theorem node?_erase_of_ne (fs : FileStore) {place q : Place} (other : q ≠ place) :
    (fs.erase place).node? q = fs.node? q := by
  simp only [node?, erase, find?_filter_ne fs.nodes other]

theorem node?_erase_self (fs : FileStore) (free : isFixedDirectory place = false) : (fs.erase place).node? place = none := by
  have gone : (fs.nodes.filter (·.1 ≠ place)).find? (·.1 = place) = none := by simp
  rw [node?, free, if_neg Bool.false_ne_true, erase, gone, Option.map_none]

theorem keepsDirectories_put (free : fs.node? place ≠ some .directory) (node : FileNode) :
    KeepsDirectories fs (fs.put place node) := by
  intro q directory
  have other : q ≠ place := by
    rintro rfl
    exact free directory
  rw [node?_put_of_ne fs other, directory]

theorem keepsDirectories_erase (free : fs.node? place ≠ some .directory) : KeepsDirectories fs (fs.erase place) := by
  intro q directory
  have other : q ≠ place := by
    rintro rfl
    exact free directory
  rw [node?_erase_of_ne fs other, directory]

theorem eq_put_of_writeBytes (h : fs.writeBytes p content = .ok fs') :
    ∃ place, fs.locate p = .ok place ∧ fs.node? place ≠ some .directory ∧ meansDirectory p = false ∧
      fs' = fs.put place (.file content fs.clock) := by
  obtain ⟨place, located, h⟩ := bind_eq_ok_iff.1 h
  split at h
  · cases h
  · next free =>
    split at h
    · cases h
    · next plain =>
      obtain ⟨_, -, h⟩ := bind_eq_ok_iff.1 h
      exact ⟨place, located, free, by simpa using plain, (Except.ok.inj h).symm⟩

theorem node?_ne_directory_of_stat {modified : Int} (there : fs.stat p = .ok (.file content modified))
    (located : fs.locate p = .ok place) : fs.node? place ≠ some .directory := by
  intro directory
  obtain ⟨place', located', there⟩ := bind_eq_ok_iff.1 there
  obtain rfl := Except.ok.inj (located.symm.trans located')
  rw [directory] at there
  cases there

theorem eq_erase_of_remove (removed : fs.remove p = .ok fs') :
    ∃ place, fs.locate p = .ok place ∧ fs.node? place ≠ some .directory ∧ fs' = fs.erase place := by
  obtain ⟨node, there, removed⟩ := bind_eq_ok_iff.1 removed
  cases node with
  | directory => cases removed
  | file =>
    obtain ⟨place, located, same⟩ := bind_eq_ok_iff.1 removed
    exact ⟨place, located, node?_ne_directory_of_stat there located, (Except.ok.inj same).symm⟩

theorem eq_put_of_rename {source target : Path} (renamed : fs.rename source target = .ok fs') :
    ∃ content modified before after, fs.stat source = .ok (.file content modified) ∧ fs.locate source = .ok before ∧
      fs.locate target = .ok after ∧ fs.node? after ≠ some .directory ∧
      fs' = (fs.erase before).put after (.file content modified) := by
  obtain ⟨node, there, renamed⟩ := bind_eq_ok_iff.1 renamed
  cases node with
  | directory => cases renamed
  | file content modified =>
    obtain ⟨after, target_located, renamed⟩ := bind_eq_ok_iff.1 renamed
    obtain ⟨_, -, renamed⟩ := bind_eq_ok_iff.1 renamed
    split at renamed
    · cases renamed
    · next free =>
      obtain ⟨before, located, same⟩ := bind_eq_ok_iff.1 renamed
      exact ⟨content, modified, before, after, there, located, target_located, free, (Except.ok.inj same).symm⟩

def nextPlace (place : Place) : Path.Component → Place
  | .root => ["/"]
  | .current => place
  | .parent => stepUp place
  | .normal name => place ++ [name]

theorem next_of_step {next : Place} {c : Path.Component} (stepped : fs.step place c = .ok next) :
    next = nextPlace place c := by
  cases c with
  | root => exact (Except.ok.inj stepped).symm
  | current => exact (Except.ok.inj stepped).symm
  | parent | normal name =>
    simp only [step] at stepped
    cases required : fs.requireDirectory place with
    | error e => simp [required, Except.map] at stepped
    | ok _ => simpa [required, Except.map, nextPlace, eq_comm] using stepped

theorem node?_of_makeDirectory (made : fs.makeDirectory place = .ok fs') (q : Place) :
    fs'.node? q = fs.node? q ∨ q = place ∧ fs.node? q = none ∧ fs'.node? q = some .directory := by
  unfold makeDirectory at made
  split at made
  · cases made
    exact .inl rfl
  · cases made
  · next free =>
    cases made
    by_cases here : q = place
    · subst here
      exact .inr ⟨rfl, free, by rw [node?_put, if_pos rfl, ite_self]⟩
    · exact .inl (node?_put_of_ne fs here _)

theorem orInterrupt_eq_ok_iff {α : Type} {r : Except FileFailure α} {a : α} : fs.orInterrupt r = .ok a ↔ r = .ok a := by
  cases r with
  | ok b =>
    change Except.ok b = .ok a ↔ _
    simp only [Except.ok.injEq]
  | error e => exact iff_of_false nofun nofun

theorem files_of_orInterrupt_eq_error {α : Type} {r : Except FileFailure α} {e : Interrupted}
    (failed : fs.orInterrupt r = .error e) : e.files = fs := by
  cases r with
  | ok _ => cases failed
  | error _ =>
    cases failed
    rfl

theorem files_of_stepMaking_eq_error {c : Path.Component} {e : Interrupted} (failed : stepMaking (fs, place) c = .error e) :
    e.files = fs := by
  unfold stepMaking at failed
  dsimp only at failed
  cases stepped : fs.step place c with
  | error _ =>
    rw [stepped] at failed
    cases failed
    rfl
  | ok next =>
    rw [stepped] at failed
    change fs.orInterrupt (fs.makeDirectory next) >>= _ = _ at failed
    cases made : fs.makeDirectory next with
    | error _ =>
      rw [made] at failed
      cases failed
      rfl
    | ok fs₁ =>
      rw [made] at failed
      cases failed

/-- What differs after the steps along some components is a directory that they go through, also if the steps end at a
failure. -/
theorem node?_foldlM_stepMaking (cs : List Path.Component) (fs : FileStore) (place q : Place) :
    let after := treeAfter ((cs.foldlM stepMaking (fs, place)).map (·.1))
    after.node? q = fs.node? q ∨
      (∃ ds, ds <+: cs ∧ q = ds.foldl nextPlace place) ∧ fs.node? q = none ∧ after.node? q = some .directory := by
  induction cs generalizing fs place with
  | nil => exact .inl rfl
  | cons c cs ih =>
    rw [List.foldlM_cons]
    cases first : stepMaking (fs, place) c with
    | error e => exact .inl (congrArg (node? · q) (files_of_stepMaking_eq_error first))
    | ok reached =>
      obtain ⟨fs₁, here⟩ := reached
      obtain ⟨next, stepped, first⟩ := bind_eq_ok_iff.1 first
      obtain ⟨fs₂, directory, same⟩ := bind_eq_ok_iff.1 first
      cases same
      obtain rfl := next_of_step (orInterrupt_eq_ok_iff.1 stepped)
      rcases node?_of_makeDirectory (orInterrupt_eq_ok_iff.1 directory) q with old | ⟨rfl, free, made⟩
      · rcases ih fs₁ (nextPlace place c) with kept | ⟨⟨ds, before, rfl⟩, free, made⟩
        · exact .inl (kept.trans old)
        · exact .inr ⟨⟨c :: ds, List.cons_prefix_cons.2 ⟨rfl, before⟩, rfl⟩, old ▸ free, made⟩
      · rcases ih fs₁ (nextPlace place c) with kept | ⟨-, none, -⟩
        · exact .inr ⟨⟨[c], List.cons_prefix_cons.2 ⟨rfl, List.nil_prefix⟩, rfl⟩, free, kept.trans made⟩
        · rw [made] at none
          cases none

/-- Whatever differs after the directories of a path were made, all or some of them, is a directory that the path goes
through. -/
theorem node?_makeDirectories (fs : FileStore) (p : Path) (q : Place) :
    let after := treeAfter (fs.makeDirectories p)
    after.node? q = fs.node? q ∨
      (∃ ds, ds <+: p.components ∧ q = ds.foldl nextPlace []) ∧ fs.node? q = none ∧ after.node? q = some .directory :=
  node?_foldlM_stepMaking p.components fs [] q

theorem node?_of_makeDirectories (made : fs.makeDirectories p = .ok fs') (q : Place) : fs'.node? q = fs.node? q ∨
    (∃ ds, ds <+: p.components ∧ q = ds.foldl nextPlace []) ∧ fs.node? q = none ∧ fs'.node? q = some .directory := by
  have after := fs.node?_makeDirectories p q
  rwa [made] at after

theorem files_of_interrupted_save {text : String} {e : Interrupted} (failed : fs.save p text = .error e) :
    ∃ dir, e.files = treeAfter (fs.makeDirectories dir) := by
  unfold save saveBytes at failed
  split at failed
  · next dir _ =>
    refine ⟨dir, ?_⟩
    cases directories : fs.makeDirectories dir with
    | error e' =>
      rw [directories] at failed
      cases failed
      rfl
    | ok made =>
      rw [directories] at failed
      exact files_of_orInterrupt_eq_error failed
  · exact ⟨⟨""⟩, files_of_orInterrupt_eq_error failed⟩

theorem readBytes_of_writeBytes (h : fs.writeBytes p content = .ok fs') : fs'.readBytes p = .ok content := by
  obtain ⟨place, located, free, plain, rfl⟩ := eq_put_of_writeBytes h
  have found : (fs.put place (.file content fs.clock)).locate p = .ok place :=
    (keepsDirectories_put free _).locate located
  have held : (fs.put place (.file content fs.clock)).node? place = some (.file content fs.clock) := by
    simp [node?_put, isFixedDirectory_of_node? free]
  have there : (fs.put place (.file content fs.clock)).stat p = .ok (.file content fs.clock) := by
    rw [stat]
    refine bind_eq_ok_iff.2 ⟨place, found, ?_⟩
    simp [held, plain]
  rw [readBytes, there]

theorem readBytes_of_saveBytes (h : fs.saveBytes p content = .ok fs') : fs'.readBytes p = .ok content := by
  unfold saveBytes at h
  split at h
  · obtain ⟨made, -, written⟩ := bind_eq_ok_iff.1 h
    exact readBytes_of_writeBytes (orInterrupt_eq_ok_iff.1 written)
  · exact readBytes_of_writeBytes (orInterrupt_eq_ok_iff.1 h)

theorem readText_of_readBytes {text : String} (bytes : fs.readBytes p = .ok text.toUTF8) : fs.readText p = .ok text := by
  refine bind_eq_ok_iff.2 ⟨text.toUTF8, bytes, ?_⟩
  rw [Text.fromUTF8?_toUTF8]

theorem readText_of_save {text : String} (saved : fs.save p text = .ok fs') : fs'.readText p = .ok text :=
  readText_of_readBytes (readBytes_of_saveBytes saved)

end FileStore
end MigrationMining
