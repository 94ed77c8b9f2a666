import Mathlib.Algebra.BigOperators.Group.List.Basic
import Mathlib.Algebra.GroupWithZero.Nat
import MigrationMining.Proofs.FocusFiles

/-! The list of callers beside an archive: stripping a name keeps its line feeds, so that each caller of interest has one line
more than its name has line feeds, and the callers that are reported are these lines. -/

namespace MigrationMining

theorem Text.count_replaceFrom {pattern : List Char} {c : Char} (filled : pattern ≠ []) (absent : c ∉ pattern) (skip : Nat)
    (cs : List Char) : (replaceFrom pattern [] skip cs).count c = (cs.drop skip).count c := by
  induction cs generalizing skip with
  | nil => cases skip <;> simp [replaceFrom]
  | cons d cs ih =>
    cases skip with
    | succ skip => rw [replaceFrom, ih, List.drop_succ_cons]
    | zero =>
      rw [replaceFrom, List.drop_zero]
      split
      · next begins =>
        obtain ⟨rest, whole⟩ := List.isPrefixOf_iff_prefix.1 begins
        obtain ⟨p, ps, rfl⟩ := List.exists_cons_of_ne_nil filled
        have after : cs = ps ++ rest := (List.cons.inj whole).2.symm
        have skipped : cs.drop ((p :: ps).length - 1) = rest := by simp [after]
        rw [List.nil_append, ih, skipped, ← whole, List.count_append, List.count_eq_zero.2 absent, Nat.zero_add]
      · rw [List.count_cons, List.count_cons, ih, List.drop_zero]

namespace Focus

variable {fs fs' : FileStore} {archive : Path} {g : CallGraph} {threshold : Nat} {files : FocusFiles}

theorem count_stripChars (id : List Char) : (stripChars id).count '\n' = id.count '\n' := by
  have bars : (id.filter (· ≠ '|')).count '\n' = id.count '\n' := List.count_filter (by decide)
  rw [stripChars, Text.replace, Text.count_replaceFrom (by decide) (by decide), List.drop_zero, Text.replace,
    Text.count_replaceFrom (by decide) (by decide), List.drop_zero, bars]

def nameLines (caller : String) : List (List Char) :=
  (Text.splitOn '\n' (stripChars caller.toList)).map Text.chopReturn

theorem length_nameLines (caller : String) : (nameLines caller).length = caller.toList.count '\n' + 1 := by
  rw [nameLines, List.length_map, Text.length_splitOn, count_stripChars]

theorem nameLines_of_oneLine {caller : String} (oneLine : '\n' ∉ caller.toList) :
    nameLines caller = [Text.chopReturn (stripChars caller.toList)] := by
  have free : '\n' ∉ stripChars caller.toList := by
    rwa [← List.count_eq_zero, count_stripChars, List.count_eq_zero]
  rw [nameLines, Text.splitOn_of_notMem free, List.map_singleton]

theorem lines_markdownText (g : CallGraph) (threshold : Nat) :
    Text.lines (markdownText g threshold).toList = (callersOfInterest g threshold).flatMap nameLines := by
  have ended : (markdownText g threshold).toList =
      ((callersOfInterest g threshold).map fun caller => stripChars caller.toList).flatMap (· ++ ['\n']) := by
    simp [markdownText, line, stripId, List.flatMap_map]
  rw [ended, Text.lines_flatMap_terminated, List.flatMap_map]
  rfl

theorem callerLines_eq (g : CallGraph) (threshold : Nat) : callerLines g threshold =
    (callersOfInterest g threshold).length + ((callersOfInterest g threshold).map fun caller => caller.toList.count '\n').sum := by
  rw [callerLines, lines_markdownText, List.length_flatMap]
  simp [length_nameLines, List.sum_map_add, Nat.add_comm]

theorem callersOfInterest_sublist {lower higher : Nat} (le : lower ≤ higher) (g : CallGraph) :
    (callersOfInterest g higher).Sublist (callersOfInterest g lower) := by
  refine (List.monotone_filter_right _ fun e many => ?_).map _
  rw [decide_eq_true_eq] at many ⊢
  omega

theorem exists_eq_of_isOk (ok : (write fs archive g threshold).1.isOk) :
    ∃ files fs', write fs archive g threshold = (.ok files, fs') := by
  generalize write fs archive g threshold = ended at ok
  obtain ⟨_ | files, fs'⟩ := ended
  · cases ok
  · exact ⟨files, fs', rfl⟩

theorem sum_count_eq_zero_iff {callers : List String} :
    (callers.map fun caller => caller.toList.count '\n').sum = 0 ↔ ∀ caller ∈ callers, '\n' ∉ caller.toList := by
  simp [List.sum_eq_zero_iff_forall_eq_nat, List.count_eq_zero]

theorem flatMap_nameLines_eq_map_iff {callers : List String} :
    callers.flatMap nameLines = callers.map (fun caller => Text.chopReturn (stripChars caller.toList)) ↔
      ∀ caller ∈ callers, '\n' ∉ caller.toList := by
  constructor
  · intro same
    -- the lines say too little of the names where a carriage return is cut off, but their number tells
    have lengths := congrArg List.length same
    rw [List.length_flatMap, List.length_map] at lengths
    simp only [length_nameLines, List.sum_map_add, List.map_const', List.sum_replicate_nat, Nat.mul_one,
      Nat.add_eq_right] at lengths
    exact sum_count_eq_zero_iff.1 lengths
  · intro oneLine
    rw [List.flatMap_congr fun caller mem => nameLines_of_oneLine (oneLine caller mem), ← List.map_eq_flatMap]

/-- When both focus files of an archive are written, the list of callers has the lines of the stripped names in the order of
the callers of interest, and as many callers are reported. These are one line for each caller, and as many as there are
callers, if and only if no caller of interest has a line feed in its name. A higher threshold only removes callers. -/
theorem listed_callers_iff (written : write fs archive g threshold = (.ok files, fs')) :
    (∃ text, fs'.readText (archive.append ".md.focus") = .ok text ∧
      Text.lines text.toList = (callersOfInterest g threshold).flatMap nameLines ∧
      (Text.lines text.toList = (callersOfInterest g threshold).map (fun caller => Text.chopReturn (stripChars caller.toList)) ↔
        ∀ caller ∈ callersOfInterest g threshold, '\n' ∉ caller.toList)) ∧
    files.callers = (callersOfInterest g threshold).length +
      ((callersOfInterest g threshold).map fun caller => caller.toList.count '\n').sum ∧
    (files.callers = (callersOfInterest g threshold).length ↔
      ∀ caller ∈ callersOfInterest g threshold, '\n' ∉ caller.toList) ∧
    ∀ higher, threshold ≤ higher → (callersOfInterest g higher).Sublist (callersOfInterest g threshold) := by
  have counted : files.callers = _ := (eq_of_write written).1.trans (callerLines_eq g threshold)
  have lines := lines_markdownText g threshold
  refine ⟨⟨_, (written_of_write written).markdown, lines, ?_⟩, counted, ?_, fun higher le => callersOfInterest_sublist le g⟩
  · rw [lines, flatMap_nameLines_eq_map_iff]
  · rw [counted, Nat.add_eq_left, sum_count_eq_zero_iff]

theorem listed_callers_of_emptyNames :
    let archive : Path := ⟨"a.jar"⟩
    let g := CallGraph.ofFacts [("p/A", "x"), ("|", "x"), ("|\r|", "x"), ("|", "y"), ("p/A", "|")]
    callersOfInterest g 0 = ["p/A", "|", "|\r|"] ∧
      ∃ files fs', write {} archive g 0 = (.ok files, fs') ∧ files.callers = 3 ∧
        (∃ text, fs'.readText (archive.append ".md.focus") = .ok text ∧
          Text.lines text.toList = [['p', '/', 'A'], [], []]) ∧
        (callersOfInterest g 1).Sublist (callersOfInterest g 0) := by
  intro archive g
  have callers : callersOfInterest g 0 = ["p/A", "|", "|\r|"] := by decide +kernel
  have oneLine : ∀ caller ∈ callersOfInterest g 0, '\n' ∉ caller.toList := by
    rw [callers]
    decide
  obtain ⟨files, fs', written⟩ := exists_eq_of_isOk (by decide +kernel : (write {} archive g 0).1.isOk)
  obtain ⟨⟨text, held, -, single⟩, -, counted, fewer⟩ := listed_callers_iff written
  have lines := single.2 oneLine
  have count := counted.2 oneLine
  rw [callers] at lines count
  exact ⟨callers, files, fs', written, count, ⟨text, held, lines.trans (by decide +kernel)⟩, fewer 1 (by decide)⟩

/-- A caller with a line feed in its name has two lines, and is counted twice. -/
theorem listed_callers_of_brokenName :
    let archive : Path := ⟨"a.jar"⟩
    let g := CallGraph.ofFacts [("p/A\nB", "x")]
    callersOfInterest g 0 = ["p/A\nB"] ∧
      ∃ files fs', write {} archive g 0 = (.ok files, fs') ∧ files.callers = 2 ∧
        fs'.readText (archive.append ".md.focus") = .ok "p/A\nB\n" ∧
        Text.lines "p/A\nB\n".toList = [['p', '/', 'A'], ['B']] := by
  intro archive g
  obtain ⟨files, fs', written⟩ := exists_eq_of_isOk (by decide +kernel : (write {} archive g 0).1.isOk)
  have text : markdownText g 0 = "p/A\nB\n" := by decide +kernel
  have lines : Text.lines "p/A\nB\n".toList = [['p', '/', 'A'], ['B']] := by decide +kernel
  have count : files.callers = 2 := by rw [(eq_of_write written).1, callerLines, text, lines]; rfl
  exact ⟨by decide +kernel, files, fs', written, count, text ▸ (written_of_write written).markdown, lines⟩

end Focus
end MigrationMining
