import MigrationMining.DependencyGraph
import MigrationMining.Proofs.Pieces
import MigrationMining.Proofs.SnapshotIdentity

/-! How a file of rows is read: line by line up to the first line that is no text. Each line that is read is a row, is
malformed or is blank, and every lookup finds what it finds in the file that is cut before the line that is no text. -/

namespace MigrationMining

namespace Text

/-- Bytes that are a text in UTF-8. -/
def IsText (bytes : List UInt8) : Prop := (String.fromUTF8? ⟨bytes.toArray⟩).isSome

instance (bytes : List UInt8) : Decidable (IsText bytes) := inferInstanceAs (Decidable (_ = true))

theorem toList_mk_toArray (bytes : List UInt8) : ByteArray.toList ⟨bytes.toArray⟩ = bytes := by
  simp [ByteArray.toList, byteArray_toList_loop]

end Text

namespace GraphScan

/-- Bytes in which a line that is no text comes after lines that are texts. -/
structure BrokenFile where
  texts : List (List UInt8)
  broken : List UInt8
  rest : List UInt8
  areTexts : ∀ line ∈ texts, 10 ∉ line ∧ Text.IsText line
  isNoText : 10 ∉ broken ∧ ¬ Text.IsText broken
  ends : rest = [] ∨ rest.head? = some 10

namespace BrokenFile

def front (b : BrokenFile) : List UInt8 := b.texts.flatMap (· ++ [10])

def bytes (b : BrokenFile) : List UInt8 := b.front ++ (b.broken ++ b.rest)

def content (b : BrokenFile) : ByteArray := ⟨b.bytes.toArray⟩

def cut (b : BrokenFile) : ByteArray := ⟨b.front.toArray⟩

end BrokenFile

theorem all_isText_or_exists_brokenFile (bytes : List UInt8) :
    (∀ line ∈ Text.splitOn 10 bytes, Text.IsText line) ∨ ∃ b : BrokenFile, b.bytes = bytes := by
  by_cases cut : 10 ∈ bytes
  · obtain ⟨line, rest, rfl, whole⟩ := List.eq_append_cons_of_mem cut
    by_cases text : Text.IsText line
    · rcases all_isText_or_exists_brokenFile rest with all | ⟨b, rfl⟩
      · refine .inl fun l mem => ?_
        rw [Text.splitOn_append whole, List.mem_cons] at mem
        rcases mem with rfl | mem
        · exact text
        · exact all l mem
      · let longer : BrokenFile :=
          { b with texts := line :: b.texts, areTexts := List.forall_mem_cons.2 ⟨⟨whole, text⟩, b.areTexts⟩ }
        exact .inr ⟨longer, by simp [longer, BrokenFile.bytes, BrokenFile.front]⟩
    · exact .inr ⟨⟨[], line, 10 :: rest, by simp, ⟨whole, text⟩, .inr rfl⟩, rfl⟩
  · by_cases text : Text.IsText bytes
    · exact .inl (by simpa [Text.splitOn_of_notMem cut] using text)
    · exact .inr ⟨⟨[], bytes, [], by simp, ⟨cut, text⟩, .inl rfl⟩, by simp [BrokenFile.bytes, BrokenFile.front]⟩
termination_by bytes.length
decreasing_by simp_all; omega

def decode? (line : List UInt8) : Option (List Char) := (String.fromUTF8? ⟨line.toArray⟩).map (·.toList)

theorem isSome_decode?_iff {line : List UInt8} : (decode? line).isSome ↔ Text.IsText line := by
  rw [decode?, Option.isSome_map, Text.IsText]

theorem byteLines_of_splitOn {content : ByteArray} {lines : List (List UInt8)} {last : List UInt8}
    (cut : Text.splitOn 10 content.toList = lines ++ [last]) :
    byteLines content = (lines ++ if last = [] then [] else [last]).map decode? := by
  unfold byteLines
  rw [cut]
  by_cases empty : last = []
  · simp [empty, decode?]
  · simp [empty, decode?]

theorem BrokenFile.byteLines_cut (b : BrokenFile) : byteLines b.cut = b.texts.map decode? := by
  have pieces : Text.splitOn 10 b.cut.toList = b.texts ++ [[]] := by
    rw [cut, Text.toList_mk_toArray, front]
    exact Text.splitOn_flatMap_concat fun line mem => (b.areTexts line mem).1
  rw [byteLines_of_splitOn pieces, if_pos rfl, List.append_nil]

theorem BrokenFile.exists_byteLines (b : BrokenFile) :
    ∃ others, byteLines b.content = b.texts.map decode? ++ none :: others := by
  have texts : ∀ line ∈ b.texts, 10 ∉ line := fun line mem => (b.areTexts line mem).1
  have unread : decode? b.broken = none := by
    rw [← Option.not_isSome_iff_eq_none, isSome_decode?_iff]
    exact b.isNoText.2
  have said : b.broken ≠ [] := by
    intro empty
    have isText : Text.IsText [] := by decide
    exact b.isNoText.2 (empty ▸ isText)
  obtain ⟨more, after⟩ : ∃ more, Text.splitOn 10 (b.broken ++ b.rest) = b.broken :: more := by
    rcases b.ends with none | next
    · exact ⟨[], by rw [none, List.append_nil, Text.splitOn_of_notMem b.isNoText.1]⟩
    · obtain ⟨rest, eq⟩ := List.head?_eq_some_iff.1 next
      exact ⟨Text.splitOn 10 rest, by rw [eq, Text.splitOn_append b.isNoText.1]⟩
  have pieces : Text.splitOn 10 b.content.toList = b.texts ++ b.broken :: more := by
    rw [content, Text.toList_mk_toArray, bytes, front, Text.splitOn_flatMap_append texts, after]
  -- only an empty last line is left out, and the broken line is not empty
  rcases List.eq_nil_or_concat more with rfl | ⟨front, last, rfl⟩
  · refine ⟨[], ?_⟩
    rw [byteLines_of_splitOn pieces, if_neg said]
    simp [unread]
  · refine ⟨(front ++ if last = [] then [] else [last]).map decode?, ?_⟩
    have ended : b.texts ++ b.broken :: front.concat last = (b.texts ++ b.broken :: front) ++ [last] := by simp
    rw [byteLines_of_splitOn (pieces.trans ended)]
    simp [unread]

def textsOf : List (Option (List Char)) → List (List Char)
  | some line :: lines => line :: textsOf lines
  | _ => []

def linesRead (content : ByteArray) : List (List Char) := textsOf (byteLines content)

def isMalformed (line : List Char) : Bool := !Text.allBlank line && (GraphRow.parse line).isNone

/-- The numbers of the malformed ones of the lines after the first `done` ones. -/
def malformedAfter (done : Nat) (lines : List (List Char)) : List Nat :=
  ((lines.zipIdx (done + 1)).filter fun line => isMalformed line.1).map (·.2)

theorem parse_of_allBlank {line : List Char} (blank : Text.allBlank line) : GraphRow.parse line = none := by
  have single : ',' ∉ line := fun mem => absurd (List.all_eq_true.1 blank _ mem) (by decide)
  simp [GraphRow.parse, GraphRow.fields, Text.splitOn_of_notMem single]

theorem malformedAfter_cons (done : Nat) (line : List Char) (lines : List (List Char)) :
    malformedAfter done (line :: lines) =
      if isMalformed line then (done + 1) :: malformedAfter (done + 1) lines else malformedAfter (done + 1) lines := by
  rw [malformedAfter, List.zipIdx_cons, List.filter_cons]
  split <;> simp [malformedAfter]

theorem ofLines_eq (done : Nat) (lines : List (Option (List Char))) : ofLines done lines = {
    rows := (textsOf lines).filterMap GraphRow.parse
    blank := (textsOf lines).countP Text.allBlank
    malformed := malformedAfter done (textsOf lines)
    stoppedAfter := if (textsOf lines).length < lines.length then some (done + (textsOf lines).length) else none } := by
  induction lines generalizing done with
  | nil => rfl
  | cons line lines ih =>
    cases line with
    | none => simp [ofLines, textsOf, malformedAfter]
    | some line =>
      have stopped : (if (textsOf lines).length < lines.length then some (done + 1 + (textsOf lines).length) else none) =
          if (textsOf lines).length + 1 < lines.length + 1 then some (done + ((textsOf lines).length + 1)) else none := by
        congr 1
        · simp
        · congr 1
          omega
      rw [ofLines, ih (done + 1), stopped]
      by_cases blank : Text.allBlank line
      · have sound : ¬ isMalformed line := by simp [isMalformed, blank]
        simp [textsOf, blank, parse_of_allBlank blank, malformedAfter_cons, sound]
      · cases row : GraphRow.parse line with
        | some r =>
          have sound : ¬ isMalformed line := by simp [isMalformed, row]
          simp [textsOf, blank, row, malformedAfter_cons, sound]
        | none =>
          have bad : isMalformed line := by simp [isMalformed, row, blank]
          simp [textsOf, blank, row, malformedAfter_cons, bad]

theorem length_malformedAfter (done : Nat) (lines : List (List Char)) :
    (malformedAfter done lines).length = lines.countP isMalformed := by
  induction lines generalizing done with
  | nil => rfl
  | cons line lines ih =>
    rw [malformedAfter_cons, List.countP_cons]
    split <;> simp_all

theorem head?_malformedAfter (done : Nat) (lines : List (List Char)) : (malformedAfter done lines).head? =
    if lines.countP isMalformed = 0 then none else some (done + lines.findIdx isMalformed + 1) := by
  induction lines generalizing done with
  | nil => rfl
  | cons line lines ih =>
    rw [malformedAfter_cons, List.countP_cons, List.findIdx_cons]
    by_cases bad : isMalformed line
    · simp [bad]
    · have next : done + 1 + lines.findIdx isMalformed = done + (lines.findIdx isMalformed + 1) := by omega
      simp [bad, ih, next]

theorem length_rows_add (lines : List (List Char)) :
    (lines.filterMap GraphRow.parse).length + lines.countP isMalformed + lines.countP Text.allBlank = lines.length := by
  induction lines with
  | nil => rfl
  | cons line lines ih =>
    rw [List.countP_cons, List.countP_cons, List.filterMap_cons]
    by_cases blank : Text.allBlank line
    · simp [isMalformed, blank, parse_of_allBlank blank]
      omega
    · cases row : GraphRow.parse line with
      | some r => simp [isMalformed, blank, row]; omega
      | none => simp [isMalformed, blank, row]; omega

theorem textsOf_append_none (lines others : List (Option (List Char))) :
    textsOf (lines ++ none :: others) = textsOf lines := by
  induction lines with
  | nil => rfl
  | cons line lines ih =>
    cases line with
    | none => rfl
    | some line => rw [List.cons_append, textsOf, textsOf, ih]

theorem length_textsOf {lines : List (Option (List Char))} (all : ∀ line ∈ lines, line.isSome) :
    (textsOf lines).length = lines.length := by
  induction lines with
  | nil => rfl
  | cons line lines ih =>
    obtain ⟨first, rest⟩ := List.forall_mem_cons.1 all
    obtain ⟨chars, rfl⟩ := Option.isSome_iff_exists.1 first
    rw [textsOf, List.length_cons, List.length_cons, ih rest]

theorem length_linesRead (content : ByteArray) {n : Nat} (stopped : (ofBytes content).stoppedAfter = some n) :
    (linesRead content).length = n := by
  rw [ofBytes, ofLines_eq] at stopped
  simpa [linesRead] using (Option.ite_none_right_eq_some.1 stopped).2

namespace BrokenFile

variable (b : BrokenFile)

theorem isSome_of_mem_texts : ∀ line ∈ b.texts.map decode?, line.isSome := by
  rintro _ mem
  obtain ⟨line, there, rfl⟩ := List.mem_map.1 mem
  exact isSome_decode?_iff.2 (b.areTexts line there).2

theorem ofBytes_content :
    ofBytes b.content = { ofBytes b.cut with stoppedAfter := some b.texts.length } := by
  obtain ⟨others, lines⟩ := b.exists_byteLines
  have all := length_textsOf b.isSome_of_mem_texts
  rw [ofBytes, ofBytes, lines, b.byteLines_cut, ofLines_eq, ofLines_eq, textsOf_append_none]
  simp [all]

theorem stoppedAfter_cut : (ofBytes b.cut).stoppedAfter = none := by
  rw [ofBytes, b.byteLines_cut, ofLines_eq, length_textsOf b.isSome_of_mem_texts]
  simp

end BrokenFile

theorem stoppedAfter_eq_some_iff {content : ByteArray} {n : Nat} :
    (ofBytes content).stoppedAfter = some n ↔ ∃ b : BrokenFile, b.content = content ∧ b.texts.length = n := by
  constructor
  · intro stopped
    rcases all_isText_or_exists_brokenFile content.toList with all | ⟨b, whole⟩
    · obtain ⟨lines, last, pieces⟩ : ∃ lines last, Text.splitOn 10 content.toList = lines ++ [last] :=
        ⟨_, _, (List.dropLast_concat_getLast (Text.splitOn_ne_nil 10 _)).symm⟩
      have some_each : ∀ line ∈ byteLines content, line.isSome := by
        intro line mem
        rw [byteLines_of_splitOn pieces] at mem
        obtain ⟨piece, there, rfl⟩ := List.mem_map.1 mem
        have kept : piece ∈ lines ++ [last] := by
          split at there
          · exact List.mem_append_left _ (by simpa using there)
          · exact there
        exact isSome_decode?_iff.2 (all piece (pieces ▸ kept))
      rw [ofBytes, ofLines_eq, length_textsOf some_each] at stopped
      simp at stopped
    · have same : b.content = content := by
        rw [BrokenFile.content, whole]
        simp [ByteArray.toList, Text.byteArray_toList_loop]
      refine ⟨b, same, ?_⟩
      rw [← same, b.ofBytes_content] at stopped
      exact Option.some.inj stopped
  · rintro ⟨b, rfl, rfl⟩
    rw [b.ofBytes_content]

def stopped (file : Path) (n : Nat) : Diagnostic :=
  ⟨.malformedInput, file.text, "read stopped after line " ++ toString n ++ ": " ++ FileFailure.notText.message⟩

def skipped (file : Path) (count first : Nat) : Diagnostic :=
  ⟨.malformedInput, file.text, "skipped " ++ toString count ++ " malformed rows, first at line " ++ toString first⟩

theorem diagnostics_ofBytes (file : Path) (content : ByteArray) : (ofBytes content).diagnostics file =
    ((ofBytes content).stoppedAfter.map (stopped file)).toList ++
      if (linesRead content).countP isMalformed = 0 then []
      else [skipped file ((linesRead content).countP isMalformed) ((linesRead content).findIdx isMalformed + 1)] := by
  have positions : (ofBytes content).malformed = malformedAfter 0 (linesRead content) := by rw [ofBytes, ofLines_eq, linesRead]
  have first := head?_malformedAfter 0 (linesRead content)
  have count := length_malformedAfter 0 (linesRead content)
  rw [← positions] at first count
  unfold diagnostics
  congr 1
  · cases (ofBytes content).stoppedAfter <;> rfl
  · split
    · next none =>
      rw [none, List.length_nil] at count
      rw [if_pos count.symm]
    · next place places there =>
      rw [there] at first count
      have found : (linesRead content).countP isMalformed ≠ 0 := by rw [← count]; simp
      rw [if_neg found] at first ⊢
      rw [there, count, Option.some.inj first, Nat.zero_add]
      rfl

end GraphScan

namespace DependencyGraph

open GraphScan

variable {g : DependencyGraph} {fs fs' : FileStore} {name : String}

/-- What was found, with one more diagnostic before those that were reported. -/
def noting {α : Type} (d : Diagnostic) (found : α × DiagnosticLog) : α × DiagnosticLog := (found.1, d :: found.2)

theorem rows_eq {content : ByteArray} (held : fs.readBytes (g.dir / name) = .ok content) :
    g.rows name fs = ((ofBytes content).rows, (ofBytes content).diagnostics (g.dir / name)) := by
  rw [rows, held]

theorem rows_of_broken {b : BrokenFile} (broken : fs.readBytes (g.dir / name) = .ok b.content)
    (cut : fs'.readBytes (g.dir / name) = .ok b.cut) :
    g.rows name fs = noting (stopped (g.dir / name) b.texts.length) (g.rows name fs') := by
  rw [rows_eq broken, rows_eq cut, b.ofBytes_content]
  simp [noting, diagnostics, stopped, b.stoppedAfter_cut]

/-- A file with a line that is no text is read up to that line: each lookup finds what it finds in the file that is cut
there, and reports the line besides. In any file each line that is read is a row, malformed or blank, and the malformed ones
are reported with their number and the place of the first. -/
theorem files_read_line_by_line (g : DependencyGraph) :
    (∀ (b : BrokenFile) (fs fs' : FileStore), fs.readBytes (g.dir / releasesFile) = .ok b.content →
      fs'.readBytes (g.dir / releasesFile) = .ok b.cut →
        let stop := stopped (g.dir / releasesFile) b.texts.length
        (∀ p, g.releases p fs = noting stop (g.releases p fs')) ∧ ∀ c, g.isListed c fs = noting stop (g.isListed c fs')) ∧
    (∀ (b : BrokenFile) (fs fs' : FileStore), fs.readBytes (g.dir / linksFile) = .ok b.content →
      fs'.readBytes (g.dir / linksFile) = .ok b.cut →
        let stop := stopped (g.dir / linksFile) b.texts.length
        (∀ c, g.clients c fs = noting stop (g.clients c fs')) ∧
        (∀ c, g.dependencies c fs = noting stop (g.dependencies c fs')) ∧
        ∀ p, g.links p fs = noting stop (g.links p fs')) ∧
    ∀ (fs : FileStore) (name : String) (content : ByteArray), fs.readBytes (g.dir / name) = .ok content →
      let s := ofBytes content
      let lines := linesRead content
      let malformed := lines.countP isMalformed
      (s.rows = lines.filterMap GraphRow.parse ∧ s.malformed.length = malformed ∧ s.blank = lines.countP Text.allBlank ∧
        s.rows.length + s.malformed.length + s.blank = lines.length) ∧
      (∀ n, s.stoppedAfter = some n ↔ n = lines.length ∧ ∃ b : BrokenFile, b.content = content ∧ b.texts.length = n) ∧
      g.rows name fs = (s.rows, (s.stoppedAfter.map (stopped (g.dir / name))).toList ++
        if malformed = 0 then [] else [skipped (g.dir / name) malformed (lines.findIdx isMalformed + 1)]) := by
  refine ⟨fun b fs fs' broken cut => ?_, fun b fs fs' broken cut => ?_, fun fs name content held => ?_⟩
  · have read := rows_of_broken broken cut
    exact ⟨fun p => by simp only [releases, read]; rfl, fun c => by simp only [isListed, read]; rfl⟩
  · have read := rows_of_broken broken cut
    exact ⟨fun c => by simp only [clients, read]; rfl, fun c => by simp only [dependencies, read]; rfl,
      fun p => by simp only [links, read]; rfl⟩
  · have scanned : ofBytes content = _ := ofLines_eq 0 (byteLines content)
    have found : (ofBytes content).rows = (linesRead content).filterMap GraphRow.parse := by rw [scanned, linesRead]
    have blank : (ofBytes content).blank = (linesRead content).countP Text.allBlank := by rw [scanned, linesRead]
    have malformed : (ofBytes content).malformed.length = (linesRead content).countP isMalformed := by
      rw [scanned]
      exact length_malformedAfter 0 (linesRead content)
    refine ⟨⟨found, malformed, blank, ?_⟩, fun n => ?_, ?_⟩
    · rw [found, malformed, blank, length_rows_add]
    · constructor
      · exact fun stop => ⟨(length_linesRead content stop).symm, stoppedAfter_eq_some_iff.1 stop⟩
      · exact fun stop => stoppedAfter_eq_some_iff.2 stop.2
    · rw [rows_eq held, diagnostics_ofBytes]

/-- A row, a blank line and a malformed one before a line with a byte that stands in no text, and a row after it. -/
def brokenRows : BrokenFile where
  texts := ["\"x:c:1\",\"g:a:1\",\"compile\"", " ", "lonely"].map fun line => line.toUTF8.toList
  broken := "x:d:1,g:a:1".toUTF8.toList ++ [255]
  rest := 10 :: "x:e:1,g:a:1".toUTF8.toList
  areTexts := by decide +kernel
  isNoText := by decide +kernel
  ends := .inr rfl

def dumpOf (content : ByteArray) : FileStore where
  nodes := [(["graph"], .directory), (["graph", "next_all.csv"], .file content 0),
    (["graph", "links_all.csv"], .file content 0)]

theorem files_read_line_by_line_of_brokenRows :
    let g : DependencyGraph := ⟨⟨"graph"⟩⟩
    let file : Path := ⟨"graph/links_all.csv"⟩
    let c : Coordinate := ⟨"g", "a", "1"⟩
    (∀ name ∈ [releasesFile, linksFile], (dumpOf brokenRows.content).readBytes (g.dir / name) = .ok brokenRows.content ∧
      (dumpOf brokenRows.cut).readBytes (g.dir / name) = .ok brokenRows.cut) ∧
    g.clients c (dumpOf brokenRows.cut) = ([⟨"x", "c", "1"⟩], [skipped file 1 3]) ∧
    g.clients c (dumpOf brokenRows.content) = ([⟨"x", "c", "1"⟩], [stopped file 3, skipped file 1 3]) ∧
    g.isListed c (dumpOf brokenRows.content) =
      noting (stopped ⟨"graph/next_all.csv"⟩ 3) (g.isListed c (dumpOf brokenRows.cut)) ∧
    (linesRead brokenRows.content).length = 3 := by
  intro g file c
  have held : ∀ name ∈ [releasesFile, linksFile],
      (dumpOf brokenRows.content).readBytes (g.dir / name) = .ok brokenRows.content ∧
        (dumpOf brokenRows.cut).readBytes (g.dir / name) = .ok brokenRows.cut := by decide +kernel
  have found : g.clients c (dumpOf brokenRows.cut) = ([⟨"x", "c", "1"⟩], [skipped file 1 3]) := by decide +kernel
  have releases := held releasesFile (by simp)
  have links := held linksFile (by simp)
  obtain ⟨overReleases, overLinks, lineByLine⟩ := files_read_line_by_line g
  obtain ⟨-, listed⟩ := overReleases brokenRows _ _ releases.1 releases.2
  obtain ⟨clients, -⟩ := overLinks brokenRows _ _ links.1 links.2
  obtain ⟨-, stops, -⟩ := lineByLine _ linksFile _ links.1
  obtain ⟨lines, -⟩ := (stops 3).1 (by decide +kernel)
  have atLinks : stopped (g.dir / linksFile) brokenRows.texts.length = stopped file 3 := by decide +kernel
  have atReleases : stopped (g.dir / releasesFile) brokenRows.texts.length = stopped ⟨"graph/next_all.csv"⟩ 3 := by
    decide +kernel
  refine ⟨held, found, ?_, ?_, lines.symm⟩
  · rw [clients c, found, atLinks]
    rfl
  · rw [listed c, atReleases]

end DependencyGraph
end MigrationMining
