import MigrationMining.Proofs.StoredCandidates

/-! Which adaptations are read back from the text they are stored as: those whose two clients and whose library are named by
their own text. -/

namespace MigrationMining

namespace Json

theorem project?_eq_some {j : Json} {p : Project} (h : j.project? = some p) : p.Readable := by
  obtain ⟨text, -, parsed⟩ := Option.bind_eq_some_iff.1 h
  cases named : Project.parse text with
  | error e => simp [named, Except.toOption] at parsed
  | ok q =>
    simp only [named, Except.toOption, Option.some.injEq] at parsed
    exact parsed ▸ Project.readable_of_parse named

theorem project?_text {p : Project} (readable : p.Readable) : (string p.text).project? = some p := by
  rw [project?, string?, Option.bind_some, Project.parse_text readable]
  rfl

theorem change?_text (change : Change) : (string change.text).change? = some change := by
  cases change <;> rfl

theorem list?_strings (texts : List String) : (strings texts).list? string? = some texts := list?_map fun _ _ => rfl

end Json

namespace Adaptation

/-- What holds of an adaptation that can be read from a file. -/
structure Storable (a : Adaptation) : Prop where
  clients : a.comparison.clientOld.Readable ∧ a.comparison.clientNew.Readable
  library : a.comparison.library.Readable

theorem storable_of_ofJson? {j : Json} {a : Adaptation} (h : ofJson? j = some a) : a.Storable := by
  unfold ofJson? at h
  split at h
  · simp only [Option.bind_eq_bind, Option.bind_eq_some_iff, Option.pure_def, Option.some.injEq] at h
    obtain ⟨old, clientOld, new, clientNew, library, named, -, -, -, -, -, -, -, -, -, -, rfl⟩ := h
    exact ⟨⟨Json.coordinate?_eq_some clientOld, Json.coordinate?_eq_some clientNew⟩, Json.project?_eq_some named⟩
  · cases h

theorem record?_toJson (a : Adaptation) : a.toJson.record? fieldNames = some [
    some (.string a.comparison.clientOld.text), some (.string a.comparison.clientNew.text),
    some (.string a.comparison.library.text), some (.string a.caller), some (.string a.callee),
    some (.string a.comparison.change.text), some (.strings a.before), some (.strings a.after)] := by
  simp [toJson, Json.record?, fieldNames]

theorem ofJson?_toJson {a : Adaptation} (h : a.Storable) : ofJson? a.toJson = some a := by
  have text (s : String) : (Json.string s).string? = some s := rfl
  rw [ofJson?, record?_toJson]
  simp [Json.coordinate?_text h.clients.1, Json.coordinate?_text h.clients.2, Json.project?_text h.library,
    Json.change?_text, Json.list?_strings, text]

theorem exact_toJson (a : Adaptation) : a.toJson.Exact :=
  ⟨trivial, trivial, trivial, trivial, trivial, trivial, Json.exact_strings _, Json.exact_strings _, trivial⟩

end Adaptation

namespace DatasetFiles

variable {as : List Adaptation}

theorem parseAdaptations_eq_ok_iff {text : String} :
    parseAdaptations text = .ok as ↔ (Json.read text).bind (·.list? Adaptation.ofJson?) = some as := by
  rw [parseAdaptations]
  cases (Json.read text).bind (·.list? Adaptation.ofJson?) <;> simp

theorem storable_of_parseAdaptations {text : String} (h : parseAdaptations text = .ok as) : ∀ a ∈ as, a.Storable := by
  intro a listed
  obtain ⟨k, read⟩ := Json.mem_of_read_list (parseAdaptations_eq_ok_iff.1 h) listed
  exact Adaptation.storable_of_ofJson? read

/-- Stored adaptations are read back, all of them and in their order, if and only if each of them can be. -/
theorem parseAdaptations_adaptationsText :
    parseAdaptations (adaptationsText as) = .ok as ↔ ∀ a ∈ as, a.Storable := by
  refine ⟨storable_of_parseAdaptations, fun storable => parseAdaptations_eq_ok_iff.2 ?_⟩
  exact Json.read_list (fun a _ => a.exact_toJson) fun a listed => Adaptation.ofJson?_toJson (storable a listed)

end DatasetFiles
end MigrationMining
