import MigrationMining.Proofs.LongerTexts
import MigrationMining.Proofs.ScratchFiles

/-! Entries of a cache that were cut off while they were written: an entry is read back if it is whole, and found corrupt
wherever it was cut. -/

namespace MigrationMining

namespace Text

theorem fromUTF8?_of_cut {text : String} {n : Nat} (cut : n < text.toUTF8.size) :
    String.fromUTF8? (text.toUTF8.extract 0 n) = none ∨
      ∃ front back, String.fromUTF8? (text.toUTF8.extract 0 n) = some front ∧ text = front ++ back ∧ back ≠ "" := by
  by_cases valid : (text.toUTF8.extract 0 n).IsValidUTF8
  · have position : (⟨n⟩ : String.Pos.Raw).IsValid text := by
      refine String.Pos.Raw.isValid_iff_isValidUTF8_extract_zero.2 ⟨?_, valid⟩
      exact String.Pos.Raw.le_iff.2 (Nat.le_of_lt cut)
    obtain ⟨front, back, rfl, ends⟩ := String.Pos.Raw.isValid_iff_exists_append.1 position
    have size : n = front.toUTF8.size := congrArg String.Pos.Raw.byteIdx ends
    have whole : (front ++ back).toUTF8 = front.toUTF8 ++ back.toUTF8 := String.toByteArray_append
    rw [whole] at cut ⊢
    refine .inr ⟨front, back, ?_, rfl, ?_⟩
    · rw [ByteArray.extract_append_eq_left size]
      exact fromUTF8?_toUTF8 front
    · rintro rfl
      simp [size] at cut
  · exact .inl (dif_neg valid)

end Text

theorem ModelFacts.parse_of_cut (f : ModelFacts) {n : Nat} (cut : n < f.stored.size) :
    parse (f.stored.extract 0 n) = none := by
  unfold parse
  rcases Text.fromUTF8?_of_cut cut with none | ⟨front, back, some, text, missing⟩
  · unfold stored
    rw [none, Option.bind_none]
  · have chars : f.toJson.compact.toList = front.toList ++ back.toList := by rw [text, String.toList_append]
    have unread : Json.read front = none :=
      Json.readChars_of_cut f.exact_toJson chars (by simpa using missing)
    unfold stored
    rw [some, Option.bind_some, unread, Option.bind_none]

namespace Extractor

variable {x : Extractor} {key : String} {entry : Path} {fs saved moved : FileStore} {m : CodeModel}

theorem exists_entry_eq_div (kept : x.entry? key = some entry) :
    ∃ (d : Path) (name : String), entry = d / name ∧ Path.PlainName name := by
  obtain ⟨directory, -, rfl⟩ := Option.map_eq_some_iff.1 kept
  obtain ⟨q, whole⟩ := Path.exists_div_append directory key ".json"
  rw [whole]
  obtain ⟨d, front, named⟩ := q.exists_append_eq_div
  exact ⟨d, _, named (by decide)⟩

theorem readBytes_of_writeEntry (kept : x.entry? key = some entry)
    (written : fs.save (entry.append ".part") m.facts.toJson.compact = .ok saved)
    (renamed : saved.rename (entry.append ".part") entry = .ok moved) :
    (writeEntry fs entry m).readBytes entry = .ok m.facts.stored := by
  have done : writeEntry fs entry m = moved := by simp [writeEntry, attempt, written, renamed]
  rw [done]
  obtain ⟨d, name, rfl, plain⟩ := exists_entry_eq_div kept
  have plainPart : Path.PlainName (name ++ ".part") :=
    .of_suffix plain.slashFree (by decide) (c := 'p') (by decide) (by decide)
  rw [Path.append_div d plain] at written renamed
  obtain ⟨opens, held⟩ := (FileStore.readBytes_div plainPart).1 (FileStore.readBytes_of_saveBytes written)
  obtain ⟨erased, first, -, second, held⟩ := FileStore.RewritesFile.of_rename plainPart plain renamed held
  exact (FileStore.readBytes_div plain).2 ⟨second.opens_iff.2 (first.opens_iff.2 opens), held⟩

theorem readEntry_of_stored (built : ∃ facts, m.callGraph = .ofFacts facts)
    (read : fs.readBytes entry = .ok m.facts.stored) : readEntry fs entry = .ok (some m) := by
  simp [readEntry, read, ModelFacts.parse_stored, CodeModel.model_facts built]

/-- An entry holds what was written to it, if nothing went wrong, and the model is read back from that. An entry that holds
less, from nothing at all to all but the last byte, is corrupt. -/
theorem entry_whole_or_corrupt (kept : x.entry? key = some entry) (built : ∃ facts, m.callGraph = .ofFacts facts) :
    (∀ fs saved moved, fs.save (entry.append ".part") m.facts.toJson.compact = .ok saved →
      saved.rename (entry.append ".part") entry = .ok moved →
      (writeEntry fs entry m).readBytes entry = .ok m.facts.stored) ∧
    (∀ fs, fs.readBytes entry = .ok m.facts.stored → readEntry fs entry = .ok (some m)) ∧
    ∀ fs, ∀ n < m.facts.stored.size, fs.readBytes entry = .ok (m.facts.stored.extract 0 n) →
      readEntry fs entry = .error (.corruptEntry entry) := by
  refine ⟨fun fs saved moved => readBytes_of_writeEntry kept, fun fs => readEntry_of_stored built, fun fs n cut read => ?_⟩
  simp [readEntry, read, ModelFacts.parse_of_cut m.facts cut]

section CutLetter

def accentedModel : CodeModel := ⟨.ofList ["é"] compare, .ofFacts [("m", "\"é\""), ("m", "f")]⟩

def cutLetter : FileStore where
  nodes := [(["cache"], .directory), (["cache", "k.json"], .file (accentedModel.facts.stored.extract 0 19) 0)]

theorem entry_whole_or_corrupt_of_cutLetter :
    let x : Extractor := ⟨.facts, some ⟨"cache"⟩⟩
    let entry : Path := ⟨"cache/k.json"⟩
    let part : Path := entry.append ".part"
    let m := accentedModel
    (x.entry? "k" = some entry ∧ ∃ facts, m.callGraph = .ofFacts facts) ∧
    (19 < m.facts.stored.size ∧ cutLetter.readBytes entry = .ok (m.facts.stored.extract 0 19) ∧
      readEntry cutLetter entry = .error (.corruptEntry entry)) ∧
    ∃ saved moved, cutLetter.save part m.facts.toJson.compact = .ok saved ∧ saved.rename part entry = .ok moved ∧
      readEntry (writeEntry cutLetter entry m) entry = .ok (some m) := by
  intro x entry part m
  have kept : x.entry? "k" = some entry := by decide +kernel
  have built : ∃ facts, m.callGraph = .ofFacts facts := ⟨_, rfl⟩
  have cut : 19 < m.facts.stored.size := by decide +kernel
  have read : cutLetter.readBytes entry = .ok (m.facts.stored.extract 0 19) := by decide +kernel
  have free : (cutLetter.save part m.facts.toJson.compact >>= fun fs => fs.orInterrupt (fs.rename part entry)).toBool := by
    decide +kernel
  obtain ⟨stores, whole, corrupt⟩ := entry_whole_or_corrupt kept built
  refine ⟨⟨kept, built⟩, ⟨cut, read, corrupt cutLetter 19 cut read⟩, ?_⟩
  cases ended : cutLetter.save part m.facts.toJson.compact >>= fun fs => fs.orInterrupt (fs.rename part entry) with
  | error e => simp [ended, Except.toBool] at free
  | ok moved =>
    obtain ⟨saved, written, renamed⟩ := bind_eq_ok_iff.1 ended
    have renamed := FileStore.orInterrupt_eq_ok_iff.1 renamed
    exact ⟨saved, moved, written, renamed, whole _ (stores cutLetter saved moved written renamed)⟩

end CutLetter

end Extractor

end MigrationMining
