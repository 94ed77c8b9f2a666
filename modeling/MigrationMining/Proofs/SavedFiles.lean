import MigrationMining.Proofs.FileText
import MigrationMining.Proofs.ServiceTrace

/-! Files that stay as they are while other files are saved, and the text that is left in a file that is saved several
times. -/

namespace MigrationMining

/-- Two paths lead to different places in every tree. -/
def Path.Apart (p q : Path) : Prop :=
  ∀ (fs : FileStore) (place place' : Place), fs.locate p = .ok place → fs.locate q = .ok place' → place ≠ place'

namespace FileStore

variable {fs fs' : FileStore} {place : Place} {p q : Path} {text text' : String}

/-- What stands in one tree stands in another. -/
def Extends (fs fs' : FileStore) : Prop := ∀ place node, fs.node? place = some node → fs'.node? place = some node

theorem Extends.keepsDirectories (extends' : Extends fs fs') : KeepsDirectories fs fs' :=
  fun place => extends' place .directory

theorem extends_treeAfter_makeDirectories (fs : FileStore) (p : Path) :
    Extends fs (treeAfter (fs.makeDirectories p)) := by
  intro q node held
  rcases fs.node?_makeDirectories p q with old | ⟨-, free, -⟩
  · exact old.trans held
  · rw [held] at free
    cases free

theorem extends_makeDirectories (made : fs.makeDirectories p = .ok fs') : Extends fs fs' := by
  simpa only [made, treeAfter] using fs.extends_treeAfter_makeDirectories p

theorem extends_of_interrupted_save {e : Interrupted} (failed : fs.save p text = .error e) : Extends fs e.files := by
  obtain ⟨dir, left⟩ := files_of_interrupted_save failed
  exact left ▸ fs.extends_treeAfter_makeDirectories dir

theorem readText_eq_ok_iff : fs.readText p = .ok text ↔
    ∃ place content modified, fs.locate p = .ok place ∧ fs.node? place = some (.file content modified) ∧
      meansDirectory p = false ∧ String.fromUTF8? content = some text := by
  constructor
  · intro held
    obtain ⟨content, bytes, isText⟩ := bind_eq_ok_iff.1 held
    unfold readBytes at bytes
    split at bytes
    · next content' modified there =>
      obtain rfl := Except.ok.inj bytes
      obtain ⟨place, located, there⟩ := bind_eq_ok_iff.1 there
      split at there
      · cases there
      · next node =>
        split at there
        · cases there
        · next plain =>
          obtain ⟨rfl, rfl⟩ := FileNode.file.inj (Except.ok.inj there)
          refine ⟨place, _, _, located, node, by simpa using plain, ?_⟩
          split at isText
          · next found =>
            rw [found, Except.ok.inj isText]
          · cases isText
      · cases there
    · cases bytes
    · cases bytes
  · rintro ⟨place, content, modified, located, node, plain, isText⟩
    have there : fs.stat p = .ok (.file content modified) := by
      refine bind_eq_ok_iff.2 ⟨place, located, ?_⟩
      simp [node, plain]
    refine bind_eq_ok_iff.2 ⟨content, by rw [readBytes, there], ?_⟩
    rw [isText]

theorem readText_of_keepsDirectories (keeps : KeepsDirectories fs fs') (held : fs.readText p = .ok text)
    (same : ∀ place, fs.locate p = .ok place → ∀ node, fs.node? place = some node → fs'.node? place = some node) :
    fs'.readText p = .ok text := by
  obtain ⟨place, content, modified, located, node, plain, isText⟩ := readText_eq_ok_iff.1 held
  exact readText_eq_ok_iff.2
    ⟨place, content, modified, keeps.locate located, same place located _ node, plain, isText⟩

theorem Extends.readText (extends' : Extends fs fs') (held : fs.readText p = .ok text) : fs'.readText p = .ok text :=
  readText_of_keepsDirectories extends'.keepsDirectories held fun place _ => extends' place

theorem readText_of_writeBytes {content : ByteArray} (apart : p.Apart q) (written : fs.writeBytes q content = .ok fs')
    (held : fs.readText p = .ok text) : fs'.readText p = .ok text := by
  obtain ⟨place', located', free, -, rfl⟩ := eq_put_of_writeBytes written
  refine readText_of_keepsDirectories (keepsDirectories_put free _) held fun place located node here => ?_
  exact (node?_put_of_ne fs (apart fs place place' located located') _).trans here

theorem readText_of_save_apart (apart : p.Apart q) (saved : fs.save q text' = .ok fs') (held : fs.readText p = .ok text) :
    fs'.readText p = .ok text := by
  unfold save saveBytes at saved
  split at saved
  · obtain ⟨made, directories, written⟩ := bind_eq_ok_iff.1 saved
    exact readText_of_writeBytes apart (orInterrupt_eq_ok_iff.1 written) ((extends_makeDirectories directories).readText held)
  · exact readText_of_writeBytes apart (orInterrupt_eq_ok_iff.1 saved) held

theorem readText_of_remove (apart : p.Apart q) (removed : fs.remove q = .ok fs') (held : fs.readText p = .ok text) :
    fs'.readText p = .ok text := by
  obtain ⟨place', located', free, rfl⟩ := eq_erase_of_remove removed
  refine readText_of_keepsDirectories (keepsDirectories_erase free) held fun place located node here => ?_
  exact (node?_erase_of_ne fs (apart fs place place' located located')).trans here

theorem readText_of_rename {source target : Path} (from_apart : p.Apart source) (to_apart : p.Apart target)
    (renamed : fs.rename source target = .ok fs') (held : fs.readText p = .ok text) : fs'.readText p = .ok text := by
  obtain ⟨content, modified, before, after, there, located₁, located₂, free, rfl⟩ := eq_put_of_rename renamed
  have moved : fs.node? before ≠ some .directory := node?_ne_directory_of_stat there located₁
  have kept : (fs.erase before).node? after ≠ some .directory := by
    intro directory
    refine free ?_
    by_cases same : after = before
    · subst same
      rw [node?_erase_self fs (isFixedDirectory_of_node? free)] at directory
      cases directory
    · rwa [node?_erase_of_ne fs same] at directory
  have keeps : KeepsDirectories fs ((fs.erase before).put after (.file content modified)) :=
    fun q directory => keepsDirectories_put kept _ q (keepsDirectories_erase moved q directory)
  refine readText_of_keepsDirectories keeps held fun place located node here => ?_
  rw [node?_put_of_ne _ (to_apart fs place after located located₂),
    node?_erase_of_ne fs (from_apart fs place before located located₁), here]

end FileStore

namespace Services

variable {σ : Type} {s : Services σ} {files : σ → FileStore} {mine : Path → Prop} {w w' : σ} {es : Trace} {path : Path}
  {text : String}

/-- The texts that are saved go to a tree of files, and no other call takes the text from one of certain files. -/
structure Spares (s : Services σ) (files : σ → FileStore) (mine : Path → Prop) : Prop where
  saved : ∀ {path text w w'}, s.save path text w = (.ok (), w') → (files w).save path text = .ok (files w')
  spared : ∀ {path text e w w'}, mine path → s.Step w e w' → (∀ q t, e ≠ .save q t (.ok ())) →
    (files w).readText path = .ok text → (files w').readText path = .ok text

theorem Spares.readText_of_steps (spares : s.Spares files mine) (owned : mine path) (steps : s.Steps w es w')
    (apart : ∀ q t, Exchange.save q t (.ok ()) ∈ es → path.Apart q) (held : (files w).readText path = .ok text) :
    (files w').readText path = .ok text := by
  refine steps.keeps (I := fun u => (files u).readText path = .ok text) (fun e mem u u' step here => ?_) held
  by_cases save : ∃ q t, e = .save q t (.ok ())
  · obtain ⟨q, t, rfl⟩ := save
    exact FileStore.readText_of_save_apart (apart q t mem) (spares.saved step) here
  · exact spares.spared owned step (fun q t same => save ⟨q, t, same⟩) here

theorem exists_last_save (saved : Exchange.save path text (.ok ()) ∈ es) :
    ∃ before last after, es = before ++ .save path last (.ok ()) :: after ∧
      ∀ t, Exchange.save path t (.ok ()) ∉ after := by
  induction es generalizing text with
  | nil => cases saved
  | cons e es ih =>
    by_cases later : ∃ t, Exchange.save path t (.ok ()) ∈ es
    · obtain ⟨t, mem⟩ := later
      obtain ⟨before, last, after, rfl, none⟩ := ih mem
      exact ⟨e :: before, last, after, rfl, none⟩
    · rcases List.mem_cons.1 saved with rfl | mem
      · exact ⟨[], text, es, rfl, fun t mem => later ⟨t, mem⟩⟩
      · exact absurd ⟨text, mem⟩ later

theorem Spares.readText_of_saved (spares : s.Spares files mine) (owned : mine path) (steps : s.Steps w es w')
    (saved : Exchange.save path text (.ok ()) ∈ es)
    (apart : ∀ q t, Exchange.save q t (.ok ()) ∈ es → q ≠ path → path.Apart q) :
    ∃ last, Exchange.save path last (.ok ()) ∈ es ∧ (files w').readText path = .ok last := by
  obtain ⟨before, last, after, rfl, none⟩ := exists_last_save saved
  obtain ⟨u, -, rest⟩ := steps.exists_of_append
  cases rest with
  | @cons _ v _ _ _ save later =>
    refine ⟨last, by simp, ?_⟩
    refine spares.readText_of_steps owned later (fun q t mem => ?_) (FileStore.readText_of_save (spares.saved save))
    refine apart q t (List.mem_append_right _ (List.mem_cons_of_mem _ mem)) ?_
    rintro rfl
    exact none t mem

end Services
end MigrationMining
