import MigrationMining.DatasetFiles

/-! Reading comma-separated records. Whatever stands in its fields, a table is read back from the text that is written of it,
field by field; so are the links and the usage matrix of a dataset. -/

namespace MigrationMining

namespace Csv

/-- Where in a field a reader stands: before its first character, outside or inside of quotation marks, or after a mark that
ends the field or is the first of two. -/
inductive Mode where
  | start
  | plain
  | quoted
  | closing
  deriving DecidableEq

/-- What has been read of a text: whole records, whole fields of the next one, and the beginning of a field. -/
structure Reader where
  mode : Mode := .start
  field : List Char := []
  fields : List String := []
  records : List (List String) := []

namespace Reader

def endField (r : Reader) : Reader :=
  { r with mode := .start, field := [], fields := r.fields ++ [String.ofList r.field] }

def endRecord (r : Reader) : Reader :=
  { r.endField with fields := [], records := r.records ++ [r.endField.fields] }

def take (r : Reader) (mode : Mode) (c : Char) : Reader := { r with mode, field := r.field ++ [c] }

/-- Reads one character. A comma ends a field and a line feed a record, except in quotation marks, where two marks stand for
one. A mark inside of a field without them, anything else after the closing one and a lone carriage return are refused. -/
def step (r : Reader) (c : Char) : Option Reader :=
  match r.mode with
  | .quoted => some (if c = '"' then { r with mode := .closing } else r.take .quoted c)
  | mode =>
    if c = ',' then some r.endField
    else if c = '\n' then some r.endRecord
    else match mode with
      | .closing => if c = '"' then some (r.take .quoted c) else none
      | _ =>
        if c = '"' then (if mode = .start then some { r with mode := .quoted } else none)
        else if c = '\r' then none
        else some (r.take .plain c)

/-- The records at the end of the text. The last one need not be ended by a line feed. -/
def finish (r : Reader) : Option (List (List String)) :=
  if r.mode = .quoted then none
  else if r.mode = .start ∧ r.fields = [] then some r.records
  else some r.endRecord.records

end Reader

def read (text : String) : Option (List (List String)) := (text.toList.foldlM Reader.step {}).bind Reader.finish

section Written

variable {mode : Mode} {begun : List Char} {fields : List String} {records : List (List String)}

theorem step_comma (outside : mode ≠ .quoted) : Reader.step ⟨mode, begun, fields, records⟩ ',' =
    some ⟨.start, [], fields ++ [String.ofList begun], records⟩ := by
  cases mode with
  | quoted => exact absurd rfl outside
  | start => rfl
  | plain => rfl
  | closing => rfl

theorem step_lineFeed (outside : mode ≠ .quoted) : Reader.step ⟨mode, begun, fields, records⟩ '\n' =
    some ⟨.start, [], [], records ++ [fields ++ [String.ofList begun]]⟩ := by
  cases mode with
  | quoted => exact absurd rfl outside
  | start => rfl
  | plain => rfl
  | closing => rfl

variable (begun fields records)

theorem foldlM_step_quoted (cs : List Char) :
    (cs.flatMap fun c => if c = '"' then ['"', '"'] else [c]).foldlM Reader.step ⟨.quoted, begun, fields, records⟩ =
      some ⟨.quoted, begun ++ cs, fields, records⟩ := by
  induction cs generalizing begun with
  | nil => simp
  | cons c cs ih =>
    by_cases mark : c = '"'
    · simp [mark, Reader.step, Reader.take, ih]
    · simp [mark, Reader.step, Reader.take, ih]

theorem foldlM_step_plain {cs : List Char} (plain : ∀ c ∈ cs, ¬ needsQuotes c) (outside : mode = .start ∨ mode = .plain) :
    ∃ after, (after = .start ∨ after = .plain) ∧
      cs.foldlM Reader.step ⟨mode, begun, fields, records⟩ = some ⟨after, begun ++ cs, fields, records⟩ := by
  induction cs generalizing begun mode with
  | nil => exact ⟨mode, outside, by simp⟩
  | cons c cs ih =>
    obtain ⟨here, later⟩ := List.forall_mem_cons.1 plain
    obtain ⟨after, ended, run⟩ := ih (begun ++ [c]) later (.inr rfl)
    have taken : Reader.step ⟨mode, begun, fields, records⟩ c = some ⟨.plain, begun ++ [c], fields, records⟩ := by
      simp only [needsQuotes, Bool.or_eq_true, decide_eq_true_eq, not_or] at here
      obtain ⟨⟨⟨comma, mark⟩, feed⟩, ret⟩ := here
      rcases outside with rfl | rfl <;> simp [Reader.step, Reader.take, comma, mark, feed, ret]
    refine ⟨after, ended, ?_⟩
    rw [List.foldlM_cons, taken]
    simpa using run

theorem foldlM_step_field (s : String) : ∃ after, after ≠ .quoted ∧
    (field s).foldlM Reader.step ⟨.start, [], fields, records⟩ = some ⟨after, s.toList, fields, records⟩ := by
  unfold field
  by_cases quotes : s.toList.any needsQuotes
  · refine ⟨.closing, by decide, ?_⟩
    have opened : Reader.step ⟨.start, [], fields, records⟩ '"' = some ⟨.quoted, [], fields, records⟩ := rfl
    have closed : Reader.step ⟨.quoted, s.toList, fields, records⟩ '"' = some ⟨.closing, s.toList, fields, records⟩ := rfl
    rw [if_pos quotes, List.cons_append, List.foldlM_cons, opened, Option.bind_eq_bind, Option.bind_some, List.foldlM_append,
      foldlM_step_quoted]
    simp [closed]
  · rw [if_neg quotes]
    have plain : ∀ c ∈ s.toList, ¬ needsQuotes c := by simpa using quotes
    obtain ⟨after, ended, run⟩ := foldlM_step_plain [] fields records plain (.inl rfl)
    exact ⟨after, by rcases ended with rfl | rfl <;> decide, run⟩

theorem foldlM_step_record (s : String) (ss : List String) :
    (record (s :: ss)).foldlM Reader.step ⟨.start, [], fields, records⟩ =
      some ⟨.start, [], [], records ++ [fields ++ s :: ss]⟩ := by
  induction ss generalizing s fields with
  | nil =>
    obtain ⟨after, outside, run⟩ := foldlM_step_field fields records s
    rw [record, List.map_cons, List.map_nil, Text.joinWith, List.foldlM_append, run]
    simp [step_lineFeed outside]
  | cons t ts ih =>
    obtain ⟨after, outside, run⟩ := foldlM_step_field fields records s
    have whole : record (s :: t :: ts) = field s ++ ',' :: record (t :: ts) := by simp [record, Text.joinWith]
    rw [whole, List.foldlM_append, run]
    simp [step_comma outside, ih]

theorem foldlM_step_records {written : List (List String)} (filled : ∀ fields ∈ written, fields ≠ []) :
    (written.flatMap record).foldlM Reader.step ⟨.start, [], [], records⟩ =
      some ⟨.start, [], [], records ++ written⟩ := by
  induction written generalizing records with
  | nil => simp
  | cons fields written ih =>
    obtain ⟨here, later⟩ := List.forall_mem_cons.1 filled
    obtain ⟨s, ss, rfl⟩ := List.exists_cons_of_ne_nil here
    rw [List.flatMap_cons, List.foldlM_append, foldlM_step_record]
    simp [ih (records ++ [s :: ss]) later]

end Written

theorem read_render {records : List (List String)} (filled : ∀ fields ∈ records, fields ≠ []) :
    read (render records) = some records := by
  rw [read, render, String.toList_ofList]
  have run := foldlM_step_records [] filled
  rw [List.nil_append] at run
  rw [run]
  rfl

/-- A field may hold any of the characters that end fields and records. -/
example : read "a,\"b,\"\"\r\nc\"\n\nd,\n" = some [["a", "b,\"\r\nc"], [""], ["d", ""]] := by decide +kernel

end Csv

namespace DatasetFiles

theorem read_linksText (links : List Link) :
    Csv.read (linksText links) = some (links.map fun link => [link.library.text, link.client.text]) := by
  refine Csv.read_render fun fields written => ?_
  obtain ⟨link, -, rfl⟩ := List.mem_map.1 written
  simp

theorem read_matrixText (m : UsageMatrix) : Csv.read (matrixText m) =
    some (("" :: m.clients.toList.map (·.text)) ::
      m.versions.map fun v => v.version :: m.clients.toList.map fun client => (m.get? v client).getD "") := by
  have rows : matrixText m = Csv.render (("" :: m.clients.toList.map (·.text)) ::
      m.versions.map fun v => v.version :: m.clients.toList.map fun client => (m.get? v client).getD "") := by
    simp [matrixText, UsageMatrix.rows, Function.comp_def]
  rw [rows]
  refine Csv.read_render fun fields written => ?_
  rcases List.mem_cons.1 written with rfl | written
  · simp
  · obtain ⟨v, -, rfl⟩ := List.mem_map.1 written
    simp

/-- The written links are read as the texts of library and client of each link, and the written matrix as the texts of its
clients in ascending order behind an empty field, and for each version its text and its cells in the order of the clients,
an absent cell as an empty field. -/
theorem tables_read_back :
    (∀ links : List Link,
      Csv.read (linksText links) = some (links.map fun link => [link.library.text, link.client.text])) ∧
    ∀ m : UsageMatrix, ∃ clients : List Project,
      clients.Pairwise (compare · · = .lt) ∧ (∀ p, p ∈ clients ↔ p ∈ m.clients) ∧
      Csv.read (matrixText m) = some (("" :: clients.map (·.text)) ::
        m.versions.map fun v => v.version :: clients.map fun client => (m.get? v client).getD "") := by
  refine ⟨read_linksText, fun m => ⟨m.clients.toList, Std.ExtTreeSet.ordered_toList, fun p => ?_, read_matrixText m⟩⟩
  exact Std.ExtTreeSet.mem_toList

end DatasetFiles
end MigrationMining
