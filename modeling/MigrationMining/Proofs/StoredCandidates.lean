import MigrationMining.DatasetFiles
import MigrationMining.Proofs.CoordinateText
import MigrationMining.Proofs.JsonText

/-! Which candidates are read back from the text they are stored as: those all of whose releases are named by their own
text. -/

namespace MigrationMining

namespace Json

theorem exactItems_iff {items : List Json} : ExactItems items ↔ ∀ j ∈ items, j.Exact := by
  induction items with
  | nil => simp [ExactItems]
  | cons j items ih => simp [ExactItems, ih]

theorem exact_strings (texts : List String) : (strings texts).Exact := by
  refine exactItems_iff.2 fun j stored => ?_
  obtain ⟨text, -, rfl⟩ := List.mem_map.1 stored
  trivial

section Lists

variable {α : Type} {item : Json → Option α}

theorem mem_of_mapM {items : List Json} {xs : List α} (h : items.mapM item = some xs) {x : α} (listed : x ∈ xs) :
    ∃ j ∈ items, item j = some x := by
  induction items generalizing xs with
  | nil => simp_all
  | cons j items ih =>
    simp only [List.mapM_cons, Option.bind_eq_bind, Option.bind_eq_some_iff, Option.pure_def, Option.some.injEq] at h
    obtain ⟨y, first, ys, rest, rfl⟩ := h
    rcases List.mem_cons.1 listed with rfl | listed
    · exact ⟨j, by simp, first⟩
    · obtain ⟨k, hk, read⟩ := ih rest listed
      exact ⟨k, by simp [hk], read⟩

theorem mem_of_list? {j : Json} {xs : List α} (h : j.list? item = some xs) {x : α} (listed : x ∈ xs) :
    ∃ k, item k = some x := by
  unfold list? at h
  split at h
  · obtain ⟨k, -, read⟩ := mem_of_mapM h listed
    exact ⟨k, read⟩
  · cases h

theorem list?_map {write : α → Json} {xs : List α} (h : ∀ x ∈ xs, item (write x) = some x) :
    (array (xs.map write)).list? item = some xs := by
  rw [list?]
  induction xs with
  | nil => rfl
  | cons x xs ih =>
    obtain ⟨first, rest⟩ := List.forall_mem_cons.1 h
    rw [List.map_cons, List.mapM_cons, first, ih rest]
    rfl

/-- A list is read back from its text if every item is and all numbers in them are written digit by digit. -/
theorem read_list {write : α → Json} {xs : List α} (exact : ∀ x ∈ xs, (write x).Exact)
    (back : ∀ x ∈ xs, item (write x) = some x) :
    (read (array (xs.map write)).indented).bind (·.list? item) = some xs := by
  have exactItems : (array (xs.map write)).Exact := by
    refine exactItems_iff.2 fun j stored => ?_
    obtain ⟨x, listed, rfl⟩ := List.mem_map.1 stored
    exact exact x listed
  rw [read_indented exactItems, Option.bind_some]
  exact list?_map back

theorem mem_of_read_list {text : String} {xs : List α} (h : (read text).bind (·.list? item) = some xs) {x : α}
    (listed : x ∈ xs) : ∃ k, item k = some x := by
  obtain ⟨j, -, list⟩ := Option.bind_eq_some_iff.1 h
  exact mem_of_list? list listed

end Lists

theorem coordinate?_eq_some {j : Json} {c : Coordinate} (h : j.coordinate? = some c) : c.Readable := by
  obtain ⟨text, -, parsed⟩ := Option.bind_eq_some_iff.1 h
  exact Coordinate.readable_of_parse (Coordinate.toOption_parse_eq_some_iff.1 parsed)

theorem coordinate?_text {c : Coordinate} (readable : c.Readable) : (string c.text).coordinate? = some c :=
  Coordinate.toOption_parse_eq_some_iff.2 (Coordinate.parse_text readable)

theorem list?_coordinates {cs : List Coordinate} (readable : ∀ c ∈ cs, c.Readable) :
    (strings (cs.map (·.text))).list? coordinate? = some cs := by
  rw [strings, List.map_map]
  exact list?_map fun c listed => coordinate?_text (readable c listed)

theorem nat?_eq_some {j : Json} {n : Nat} (h : j.nat? = some n) : n < Nat.pow 2 64 := by
  unfold nat? at h
  split at h
  · split at h
    · next small =>
      obtain rfl := Option.some.inj h
      exact small
    · cases h
  · cases h

end Json

namespace Candidate

def releases (c : Candidate) : List Coordinate := c.older :: c.newer :: (c.clientsAtOlder ++ c.clientsAtNewer)

/-- What holds of a candidate that can be read from a file. -/
structure Storable (c : Candidate) : Prop where
  readable : ∀ r ∈ c.releases, r.Readable
  countable : c.migrated < Nat.pow 2 64

theorem storable_of_ofJson? {j : Json} {c : Candidate} (h : ofJson? j = some c) : c.Storable := by
  unfold ofJson? at h
  split at h
  · next older newer migrated atOlder atNewer _ =>
    simp only [Option.bind_eq_bind, Option.bind_eq_some_iff, Option.pure_def, Option.some.injEq] at h
    obtain ⟨o, ho, n, hn, m, hm, a, ha, b, hb, rfl⟩ := h
    refine ⟨fun r named => ?_, Json.nat?_eq_some hm⟩
    simp only [releases, List.mem_cons, List.mem_append] at named
    rcases named with rfl | rfl | listed | listed
    · exact Json.coordinate?_eq_some ho
    · exact Json.coordinate?_eq_some hn
    · obtain ⟨k, read⟩ := Json.mem_of_list? ha listed
      exact Json.coordinate?_eq_some read
    · obtain ⟨k, read⟩ := Json.mem_of_list? hb listed
      exact Json.coordinate?_eq_some read
  · cases h

theorem record?_toJson (c : Candidate) : c.toJson.record? fieldNames = some [
    some (.string c.older.text), some (.string c.newer.text), some (.nat c.migrated),
    some (.strings (c.clientsAtOlder.map (·.text))), some (.strings (c.clientsAtNewer.map (·.text)))] := by
  simp [toJson, Json.record?, fieldNames]

theorem ofJson?_toJson {c : Candidate} (h : c.Storable) : ofJson? c.toJson = some c := by
  obtain ⟨older, newer, atOlder, atNewer⟩ : c.older.Readable ∧ c.newer.Readable ∧
      (∀ r ∈ c.clientsAtOlder, r.Readable) ∧ ∀ r ∈ c.clientsAtNewer, r.Readable := by
    simpa [releases, or_imp, forall_and] using h.readable
  have count : (Json.nat c.migrated).nat? = some c.migrated := if_pos h.countable
  rw [ofJson?, record?_toJson]
  simp [Json.coordinate?_text older, Json.coordinate?_text newer, count, Json.list?_coordinates atOlder,
    Json.list?_coordinates atNewer]

theorem exact_toJson {c : Candidate} (h : c.migrated < Nat.pow 2 64) : c.toJson.Exact :=
  ⟨trivial, trivial, h, Json.exact_strings _, Json.exact_strings _, trivial⟩

end Candidate

namespace DatasetFiles

variable {cs : List Candidate}

theorem parseCandidates_eq_ok_iff {text : String} :
    parseCandidates text = .ok cs ↔ (Json.read text).bind (·.list? Candidate.ofJson?) = some cs := by
  rw [parseCandidates]
  cases (Json.read text).bind (·.list? Candidate.ofJson?) <;> simp

theorem storable_of_parseCandidates {text : String} (h : parseCandidates text = .ok cs) : ∀ c ∈ cs, c.Storable := by
  intro c listed
  obtain ⟨k, read⟩ := Json.mem_of_read_list (parseCandidates_eq_ok_iff.1 h) listed
  exact Candidate.storable_of_ofJson? read

/-- Stored candidates are read back, all of them and in their order, if and only if each of them can be. -/
theorem parseCandidates_candidatesText : parseCandidates (candidatesText cs) = .ok cs ↔ ∀ c ∈ cs, c.Storable := by
  refine ⟨storable_of_parseCandidates, fun storable => parseCandidates_eq_ok_iff.2 ?_⟩
  exact Json.read_list (fun c listed => Candidate.exact_toJson (storable c listed).countable)
    fun c listed => Candidate.ofJson?_toJson (storable c listed)

end DatasetFiles

end MigrationMining
