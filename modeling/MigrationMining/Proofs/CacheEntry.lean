import MigrationMining.Proofs.OutputNames
import MigrationMining.Proofs.SavedFiles
import MigrationMining.Proofs.SnapshotIdentity
import MigrationMining.Proofs.StoredModel

/-! The entries of a cache directory as files: what can stand at the place of an entry after a change of files. -/

namespace MigrationMining

def Path.place (p : Path) : Place := p.components.foldl FileStore.nextPlace []

theorem Path.place_div (p : Path) {name : String} (plain : PlainName name) : (p / name).place = p.place ++ [name] := by
  simp [place, components_div p plain, FileStore.nextPlace]

namespace FileStore

variable {fs fs' : FileStore} {p : Path} {place q : Place} {content : ByteArray}

theorem foldl_of_foldlM_step {cs : List Path.Component} {target : Place}
    (followed : cs.foldlM fs.step place = .ok target) : target = cs.foldl nextPlace place := by
  induction cs generalizing place with
  | nil => exact (Except.ok.inj followed).symm
  | cons c cs ih =>
    obtain ⟨next, first, rest⟩ := bind_eq_ok_iff.1 (List.foldlM_cons.symm.trans followed)
    rw [ih rest, next_of_step first, List.foldl_cons]

theorem place_of_locate (located : fs.locate p = .ok place) : place = p.place :=
  foldl_of_foldlM_step (follow_of_locate located)

def contentAt? (fs : FileStore) (place : Place) : Option ByteArray :=
  match fs.node? place with
  | some (.file content _) => some content
  | _ => none

theorem contentAt?_eq_some : fs.contentAt? place = some content ↔ ∃ modified, fs.node? place = some (.file content modified) := by
  unfold contentAt?
  split <;> simp_all

theorem content_of_put {node : FileNode} (held : (fs.put place node).contentAt? q = some content) :
    q = place ∧ (∃ modified, node = .file content modified) ∨ q ≠ place ∧ fs.contentAt? q = some content := by
  obtain ⟨modified, at_q⟩ := contentAt?_eq_some.1 held
  rw [node?_put] at at_q
  by_cases fixed : isFixedDirectory q
  · simp [fixed] at at_q
  · by_cases here : q = place
    · rw [if_neg fixed, if_pos here] at at_q
      exact .inl ⟨here, modified, Option.some.inj at_q⟩
    · rw [if_neg fixed, if_neg here] at at_q
      exact .inr ⟨here, contentAt?_eq_some.2 ⟨modified, at_q⟩⟩

theorem content_of_erase (held : (fs.erase place).contentAt? q = some content) :
    q ≠ place ∧ fs.contentAt? q = some content := by
  obtain ⟨modified, at_q⟩ := contentAt?_eq_some.1 held
  by_cases fixed : isFixedDirectory q
  · simp [node?, fixed] at at_q
  · have here : q ≠ place := by
      rintro rfl
      rw [node?_erase_self fs (by simpa using fixed)] at at_q
      cases at_q
    exact ⟨here, contentAt?_eq_some.2 ⟨modified, node?_erase_of_ne fs here ▸ at_q⟩⟩

theorem content_of_stat {modified : Int} (there : fs.stat p = .ok (.file content modified)) :
    fs.contentAt? p.place = some content := by
  obtain ⟨place, located, there⟩ := bind_eq_ok_iff.1 there
  rw [← place_of_locate located, contentAt?]
  split at there
  · cases there
  · next node =>
    split at there
    · cases there
    · cases there
      rw [node]
  · cases there

theorem content_of_readBytes (read : fs.readBytes p = .ok content) : fs.contentAt? p.place = some content := by
  unfold readBytes at read
  split at read
  · next there =>
    cases read
    exact content_of_stat there
  · cases read
  · cases read

theorem content_of_treeAfter_makeDirectories (held : (treeAfter (fs.makeDirectories p)).contentAt? q = some content) :
    fs.contentAt? q = some content := by
  obtain ⟨modified, at_q⟩ := contentAt?_eq_some.1 held
  rcases fs.node?_makeDirectories p q with old | ⟨-, -, directory⟩
  · exact contentAt?_eq_some.2 ⟨modified, old ▸ at_q⟩
  · rw [directory] at at_q
    cases at_q

theorem content_of_makeDirectories (made : fs.makeDirectories p = .ok fs') (held : fs'.contentAt? q = some content) :
    fs.contentAt? q = some content :=
  content_of_treeAfter_makeDirectories (p := p) (by rwa [made])

theorem content_of_writeBytes {written : ByteArray} (done : fs.writeBytes p written = .ok fs')
    (held : fs'.contentAt? q = some content) :
    q = p.place ∧ content = written ∨ q ≠ p.place ∧ fs.contentAt? q = some content := by
  obtain ⟨place, located, -, -, rfl⟩ := eq_put_of_writeBytes done
  rw [← place_of_locate located]
  rcases content_of_put held with ⟨here, modified, same⟩ | old
  · cases same
    exact .inl ⟨here, rfl⟩
  · exact .inr old

theorem content_of_save {text : String} (saved : fs.save p text = .ok fs') (held : fs'.contentAt? q = some content) :
    q = p.place ∧ content = text.toUTF8 ∨ q ≠ p.place ∧ fs.contentAt? q = some content := by
  unfold save saveBytes at saved
  split at saved
  · obtain ⟨made, directories, written⟩ := bind_eq_ok_iff.1 saved
    rcases content_of_writeBytes (orInterrupt_eq_ok_iff.1 written) held with here | ⟨other, old⟩
    · exact .inl here
    · exact .inr ⟨other, content_of_makeDirectories directories old⟩
  · exact content_of_writeBytes (orInterrupt_eq_ok_iff.1 saved) held

theorem content_of_interrupted_save {text : String} {e : Interrupted} (failed : fs.save p text = .error e)
    (held : e.files.contentAt? q = some content) : fs.contentAt? q = some content := by
  obtain ⟨dir, left⟩ := files_of_interrupted_save failed
  exact content_of_treeAfter_makeDirectories (left ▸ held)

theorem content_of_remove (removed : fs.remove p = .ok fs') (held : fs'.contentAt? q = some content) :
    fs.contentAt? q = some content := by
  obtain ⟨place, -, -, rfl⟩ := eq_erase_of_remove removed
  exact (content_of_erase held).2

theorem content_of_rename {source target : Path} (renamed : fs.rename source target = .ok fs')
    (held : fs'.contentAt? q = some content) :
    q = target.place ∧ fs.contentAt? source.place = some content ∨ q ≠ target.place ∧ fs.contentAt? q = some content := by
  obtain ⟨moved, modified, before, after, there, -, located, -, rfl⟩ := eq_put_of_rename renamed
  rw [← place_of_locate located]
  rcases content_of_put held with ⟨here, time, same⟩ | ⟨other, old⟩
  · cases same
    exact .inl ⟨here, content_of_stat there⟩
  · exact .inr ⟨other, (content_of_erase old).2⟩

end FileStore

namespace Extractor

variable {fs : FileStore} {q : Place} {content : ByteArray}

theorem content_of_attempt_remove {entry : Path} (held : (attempt fs (·.remove entry)).contentAt? q = some content) :
    fs.contentAt? q = some content := by
  unfold attempt at held
  split at held
  · next removed => exact FileStore.content_of_remove removed held
  · exact held

/-- After a model was written to its entry, as far as that could be done, the entry holds it or what it held before, and
what stands elsewhere is old. -/
theorem content_of_writeEntry {entry : Path} {m : CodeModel} (beside : q ≠ (entry.append ".part").place)
    (held : (writeEntry fs entry m).contentAt? q = some content) :
    q = entry.place ∧ content = m.facts.stored ∨ fs.contentAt? q = some content := by
  simp only [writeEntry] at held
  split at held
  · next written saved =>
    have old {c : ByteArray} (there : written.contentAt? q = some c) : fs.contentAt? q = some c := by
      rcases FileStore.content_of_save saved there with ⟨here, -⟩ | ⟨-, old⟩
      · exact absurd here beside
      · exact old
    unfold attempt at held
    split at held
    · next renamed =>
      rcases FileStore.content_of_rename renamed held with ⟨here, moved⟩ | ⟨-, there⟩
      · rcases FileStore.content_of_save saved moved with ⟨-, same⟩ | ⟨other, -⟩
        · exact .inl ⟨here, same⟩
        · exact absurd rfl other
      · exact .inr (old there)
    · exact .inr (old held)
  · next failed => exact .inr (FileStore.content_of_interrupted_save failed held)

theorem readEntry_eq_ok_some {entry : Path} {m : CodeModel} (read : readEntry fs entry = .ok (some m)) :
    ∃ content f, fs.contentAt? entry.place = some content ∧ ModelFacts.parse content = some f ∧ m = f.model := by
  unfold readEntry at read
  split at read
  · next content bytes =>
    split at read
    · next f parsed =>
      cases read
      exact ⟨content, f, FileStore.content_of_readBytes bytes, parsed, rfl⟩
    · cases read
  · cases read
  · cases read

end Extractor

def Digest.hexDigits : List Char := "0123456789abcdef".toList

theorem Digest.mem_hexDigits {bytes : List UInt8} {c : Char} (mem : c ∈ (hex bytes).toList) : c ∈ hexDigits := by
  have digit : ∀ d < 16, Json.hexDigit d ∈ hexDigits := by decide
  rw [hex, String.toList_ofList, List.mem_flatMap] at mem
  obtain ⟨word, -, mem⟩ := mem
  obtain ⟨k, -, rfl⟩ := List.mem_map.1 mem
  exact digit _ (Nat.mod_lt _ (by omega))

namespace SnapshotIdentity

theorem slash_notMem_key (i : SnapshotIdentity) : '/' ∉ i.key.toList := by
  intro mem
  rw [key] at mem
  exact absurd (Digest.mem_hexDigits mem) (by decide)

theorem plainName_entry (i : SnapshotIdentity) : Path.PlainName (i.key ++ ".json") :=
  .of_suffix i.slash_notMem_key (by decide) (c := 'j') (by decide) (by decide)

theorem plainName_part (i : SnapshotIdentity) : Path.PlainName (i.key ++ ".json" ++ ".part") :=
  .of_suffix i.plainName_entry.slashFree (by decide) (c := 'p') (by decide) (by decide)

end SnapshotIdentity

namespace Extractor

variable {x : Extractor} {i j : SnapshotIdentity} {entry entry' : Path}

theorem entry?_eq_some (at_entry : x.entry? i.key = some entry) :
    ∃ directory, x.directory = some directory ∧ entry = directory / (i.key ++ ".json") := by
  obtain ⟨directory, kept, rfl⟩ := Option.map_eq_some_iff.1 at_entry
  exact ⟨directory, kept, rfl⟩

theorem key_eq_of_place_eq (first : x.entry? i.key = some entry) (second : x.entry? j.key = some entry')
    (same : entry.place = entry'.place) : i.key = j.key := by
  obtain ⟨directory, kept, rfl⟩ := entry?_eq_some first
  obtain ⟨directory', kept', rfl⟩ := entry?_eq_some second
  obtain rfl := Option.some.inj (kept.symm.trans kept')
  rw [Path.place_div _ i.plainName_entry, Path.place_div _ j.plainName_entry] at same
  simpa using same

theorem place_ne_part (first : x.entry? i.key = some entry) (second : x.entry? j.key = some entry') :
    entry.place ≠ (entry'.append ".part").place := by
  obtain ⟨directory, kept, rfl⟩ := entry?_eq_some first
  obtain ⟨directory', kept', rfl⟩ := entry?_eq_some second
  obtain rfl := Option.some.inj (kept.symm.trans kept')
  rw [Path.append_div _ j.plainName_entry, Path.place_div _ i.plainName_entry, Path.place_div _ j.plainName_part]
  intro same
  have names : i.key ++ ".json" = j.key ++ ".json" ++ ".part" := by simpa using same
  have last := congrArg (fun name => name.toList.getLast?) names
  simp at last

end Extractor
end MigrationMining
