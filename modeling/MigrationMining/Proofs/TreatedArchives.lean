import MigrationMining.Console.Run
import MigrationMining.Proofs.FocusFiles

/-! What becomes of the archives that models are extracted of: each is skipped, reported or listed, in the order in which
they are found, and what is counted on the way adds up. -/

namespace MigrationMining.Console

section Attempts

variable {α β ε : Type} {w w' : World}

theorem bind_run_eq_ok_iff {m : Attempt α} {f : α → Attempt β} {b : β} :
    (m >>= f).run w = (.ok b, w') ↔ ∃ a u, m.run w = (.ok a, u) ∧ (f a).run u = (.ok b, w') := by
  have whole : (m >>= f).run w = match m.run w with
      | (.ok a, u) => (f a).run u
      | (.error e, u) => (.error e, u) := by
    change ExceptT.bindCont f (m.run w).1 (m.run w).2 = _
    cases m.run w with
    | mk r u => cases r <;> rfl
  rw [whole]
  cases m.run w with
  | mk r u =>
    cases r with
    | error e =>
      refine ⟨fun done => ?_, ?_⟩
      · cases done
      · rintro ⟨_, _, first, -⟩
        cases first
    | ok a =>
      refine ⟨fun done => ⟨a, u, rfl, done⟩, ?_⟩
      rintro ⟨_, _, first, rest⟩
      cases first
      exact rest

theorem pure_run_eq_ok_iff {a b : α} : (pure a : Attempt α).run w = (.ok b, w') ↔ a = b ∧ w = w' := by
  constructor
  · intro done
    cases done
    exact ⟨rfl, rfl⟩
  · rintro ⟨rfl, rfl⟩
    rfl

theorem step_run_eq_ok_iff {m : StateM World α} {a : α} : (step m).run w = (.ok a, w') ↔ m w = (a, w') := by
  have whole : (step m).run w = (.ok (m w).1, (m w).2) := rfl
  rw [whole]
  cases m w with
  | mk b u =>
    constructor <;>
    · intro done
      cases done
      rfl

theorem orComplain_run_eq_ok_iff {message : String} {causes : ε → List String} {r : Except ε α} {a : α} :
    (orComplain message causes r).run w = (.ok a, w') ↔ r = .ok a ∧ w = w' := by
  cases r with
  | ok b => exact pure_run_eq_ok_iff.trans (by rw [Except.ok.injEq])
  | error e =>
    refine ⟨fun done => ?_, fun h => ?_⟩
    · cases done
    · cases h.1

end Attempts

/-- An archive is skipped, or its model could not be extracted, or it was. -/
inductive Outcome where
  | skipped
  | failed (c : Coordinate) (e : Failure)
  | listed (c : Coordinate) (g : CallGraph)

structure Treatment where
  archive : Path
  outcome : Outcome

namespace Treatment

def isSkipped (t : Treatment) : Bool :=
  match t.outcome with
  | .skipped => true
  | _ => false

def diagnostic? (t : Treatment) : Option Diagnostic :=
  match t.outcome with
  | .failed c e => some ⟨.extractionFailure, c.text, e.message⟩
  | _ => none

def row? (threshold : Nat) (t : Treatment) : Option ModelRow :=
  match t.outcome with
  | .listed c g => some ⟨t.archive, c, g.callerCount, g.invocationCount, Focus.callerLines g threshold⟩
  | _ => none

end Treatment

/-- A treatment of an archive with the worlds before and after it. -/
inductive Treats (x : Extractor) (threshold : Nat) (w : World) : Treatment → World → Prop where
  | skipped {archive : Path} (outside : archiveRelease? archive = none) : Treats x threshold w ⟨archive, .skipped⟩ w
  | failed {archive : Path} {c : Coordinate} {e : Failure} {u : World} (inside : archiveRelease? archive = some c)
      (refused : World.extracting (x.callGraph ⟨c, archive⟩) w = (.error e, u)) :
      Treats x threshold w ⟨archive, .failed c e⟩ { u with log := u.log ++ [⟨.extractionFailure, c.text, e.message⟩] }
  | listed {archive : Path} {c : Coordinate} {g : CallGraph} {u : World} {written : Focus.FocusFiles} {files : FileStore}
      (inside : archiveRelease? archive = some c)
      (extracted : World.extracting (x.callGraph ⟨c, archive⟩) w = (.ok g, u))
      (focus : Focus.write u.files archive g threshold = (.ok written, files)) :
      Treats x threshold w ⟨archive, .listed c g⟩ { u with files }

/-- Treatments one after another. -/
inductive TreatsAll (x : Extractor) (threshold : Nat) : World → List Treatment → World → Prop where
  | done (w : World) : TreatsAll x threshold w [] w
  | next {w u w' : World} {t : Treatment} {ts : List Treatment} (first : Treats x threshold w t u)
      (later : TreatsAll x threshold u ts w') : TreatsAll x threshold w (t :: ts) w'

variable {x : Extractor} {threshold : Nat} {w u w' : World} {t : Treatment} {ts : List Treatment}

theorem focusOf_run_eq_ok {archive : Path} {g : CallGraph} {written : Focus.FocusFiles}
    (done : (focusOf archive g threshold).run w = (.ok written, w')) :
    ∃ files, Focus.write w.files archive g threshold = (.ok written, files) ∧ w' = { w with files } := by
  obtain ⟨_, _, got, done⟩ := bind_run_eq_ok_iff.1 done
  cases got
  obtain ⟨_, _, set, done⟩ := bind_run_eq_ok_iff.1 done
  cases set
  obtain ⟨ok, rfl⟩ := orComplain_run_eq_ok_iff.1 done
  exact ⟨_, Prod.ext ok rfl, rfl⟩

theorem treats_of_modelRow {archive : Path} {c : Coordinate} {row : Option ModelRow}
    (inside : archiveRelease? archive = some c) (done : (modelRow? x threshold archive c).run w = (.ok row, w')) :
    ∃ t, Treats x threshold w t w' ∧ t.archive = archive ∧ t.row? threshold = row := by
  obtain ⟨answer, u, asked, done⟩ := bind_run_eq_ok_iff.1 done
  rw [step_run_eq_ok_iff] at asked
  cases answer with
  | error e =>
    obtain ⟨_, _, reported, done⟩ := bind_run_eq_ok_iff.1 done
    cases reported
    obtain ⟨rfl, rfl⟩ := pure_run_eq_ok_iff.1 done
    exact ⟨_, .failed inside asked, rfl, rfl⟩
  | ok g =>
    obtain ⟨written, _, focus, done⟩ := bind_run_eq_ok_iff.1 done
    obtain ⟨files, both, rfl⟩ := focusOf_run_eq_ok focus
    obtain ⟨rfl, rfl⟩ := pure_run_eq_ok_iff.1 done
    refine ⟨_, .listed inside asked both, rfl, ?_⟩
    rw [Treatment.row?, (Focus.eq_of_write both).1]

theorem treatsAll_of_modelRows {archives : List Path} {rows : List ModelRow}
    (done : (modelRows x threshold archives).run w = (.ok rows, w')) :
    ∃ ts, TreatsAll x threshold w ts w' ∧ ts.map (·.archive) = archives ∧ ts.filterMap (·.row? threshold) = rows := by
  induction archives generalizing w rows with
  | nil =>
    obtain ⟨rfl, rfl⟩ := pure_run_eq_ok_iff.1 done
    exact ⟨[], .done w, rfl, rfl⟩
  | cons archive archives ih =>
    unfold modelRows at done
    split at done
    · next outside =>
      obtain ⟨ts, all, rfl, rfl⟩ := ih done
      exact ⟨⟨archive, .skipped⟩ :: ts, .next (.skipped outside) all, rfl, rfl⟩
    · next c inside =>
      obtain ⟨row, u, first, done⟩ := bind_run_eq_ok_iff.1 done
      obtain ⟨rest, v, later, done⟩ := bind_run_eq_ok_iff.1 done
      obtain ⟨rfl, rfl⟩ := pure_run_eq_ok_iff.1 done
      obtain ⟨t, treats, rfl, rfl⟩ := treats_of_modelRow inside first
      obtain ⟨ts, all, rfl, rfl⟩ := ih later
      refine ⟨t :: ts, .next treats all, rfl, ?_⟩
      rw [List.filterMap_cons]
      cases t.row? threshold <;> rfl

def callAt (w : World) (c : Coordinate) (archive : Path) : CacheCall := ⟨⟨c, archive⟩, ⟨w.files, w.models⟩⟩

theorem eq_of_extracting {archive : Path} {c : Coordinate} {r : Except Failure CallGraph}
    (asked : World.extracting (x.callGraph ⟨c, archive⟩) w = (r, u)) :
    r.isOk = (x.answer (callAt w c archive)).isOk ∧ u = { w with
      files := (x.left (callAt w c archive)).files
      models := (x.left (callAt w c archive)).cache } := by
  obtain ⟨rfl, rfl⟩ := Prod.mk.inj asked
  refine ⟨?_, rfl⟩
  change (((x.answer (callAt w c archive)).map _).mapError _).isOk = _
  cases x.answer (callAt w c archive) <;> rfl

/-- A treatment reports its failure and nothing else, and an answer is counted if and only if a row is given. -/
theorem Treats.counts (treats : Treats x threshold w t u) : u.log = w.log ++ t.diagnostic?.toList ∧
    u.models.counts.answered = w.models.counts.answered + (t.row? threshold).toList.length := by
  cases treats with
  | skipped => exact ⟨(List.append_nil _).symm, rfl⟩
  | @failed archive c e u inside refused =>
    obtain ⟨failed, rfl⟩ := eq_of_extracting refused
    have counted := (x.ends (callAt w c archive)).counts.1
    rw [← failed] at counted
    exact ⟨rfl, counted⟩
  | @listed archive c g u written files inside extracted focus =>
    obtain ⟨answered, rfl⟩ := eq_of_extracting extracted
    have counted := (x.ends (callAt w c archive)).counts.1
    rw [← answered] at counted
    exact ⟨(List.append_nil _).symm, counted⟩

theorem TreatsAll.counts (all : TreatsAll x threshold w ts w') : w'.log = w.log ++ ts.filterMap (·.diagnostic?) ∧
    w'.models.counts.answered = w.models.counts.answered + (ts.filterMap (·.row? threshold)).length := by
  induction all with
  | done w => simp
  | @next w u w' t ts first later ih =>
    obtain ⟨log, answered⟩ := first.counts
    rw [ih.1, ih.2, log, answered, List.filterMap_cons, List.filterMap_cons]
    constructor
    · cases t.diagnostic? <;> simp
    · cases t.row? threshold with
      | none => simp
      | some row =>
        simp
        omega

theorem length_eq_of_kinds (threshold : Nat) (ts : List Treatment) : ts.length =
    (ts.filterMap (·.row? threshold)).length + (ts.filterMap (·.diagnostic?)).length + ts.countP (·.isSkipped) := by
  induction ts with
  | nil => rfl
  | cons t ts ih =>
    obtain ⟨archive, outcome⟩ := t
    cases outcome <;>
    · simp [Treatment.row?, Treatment.diagnostic?, Treatment.isSkipped] at ih ⊢
      omega

theorem count_diagnostics (ts : List Treatment) :
    DiagnosticLog.count (ts.filterMap (·.diagnostic?)) .extractionFailure = (ts.filterMap (·.diagnostic?)).length := by
  refine List.countP_eq_length.2 fun d reported => ?_
  obtain ⟨t, -, own⟩ := List.mem_filterMap.1 reported
  unfold Treatment.diagnostic? at own
  split at own
  · cases own
    rfl
  · cases own

def FocusApart (p q : Path) : Prop := ∀ s ∈ Focus.endings, ∀ t ∈ Focus.endings, (p.append s).Apart (q.append t)

variable {archive : Path} {g : CallGraph}

theorem Treats.keeps (treats : Treats x threshold w t u) (spared : x.backend.SparesFocus)
    (apart : FocusApart archive t.archive) (held : Focus.Written w.files archive g threshold) :
    Focus.Written u.files archive g threshold := by
  cases treats with
  | skipped => exact held
  | failed inside refused =>
    obtain ⟨-, rfl⟩ := eq_of_extracting refused
    exact held.of_left (c := callAt w _ _) spared
  | listed inside extracted focus =>
    obtain ⟨-, rfl⟩ := eq_of_extracting extracted
    exact (held.of_left (c := callAt w _ _) spared).of_write focus apart

theorem TreatsAll.keeps (all : TreatsAll x threshold w ts w') (spared : x.backend.SparesFocus)
    (apart : ∀ t ∈ ts, FocusApart archive t.archive) (held : Focus.Written w.files archive g threshold) :
    Focus.Written w'.files archive g threshold := by
  induction all with
  | done w => exact held
  | next first later ih =>
    obtain ⟨here, rest⟩ := List.forall_mem_cons.1 apart
    exact ih rest (first.keeps spared here held)

theorem TreatsAll.written (all : TreatsAll x threshold w ts w') (spared : x.backend.SparesFocus)
    (apart : (ts.map (·.archive)).Pairwise FocusApart) {c : Coordinate} (listed : ⟨archive, .listed c g⟩ ∈ ts) :
    Focus.Written w'.files archive g threshold := by
  induction all with
  | done w => cases listed
  | next first later ih =>
    obtain ⟨here, rest⟩ := List.pairwise_cons.1 apart
    rcases List.mem_cons.1 listed with rfl | listed
    · refine later.keeps spared (fun t mem => here _ (List.mem_map_of_mem mem)) ?_
      cases first with
      | listed inside extracted focus => exact Focus.written_of_write focus
    · exact ih rest listed

theorem pairwise_apart_find {fs : FileStore} (single : fs.Unambiguous) (root : Path) :
    (Archives.find fs root).Pairwise FocusApart := by
  refine (Archives.nodup_find single root).imp_of_mem fun found found' other s focus t focus' => ?_
  exact Archives.apart_of_mem_find found found' other focus focus'

theorem pairwise_lt_find {fs : FileStore} (single : fs.Unambiguous) (root : Path) :
    (Archives.find fs root).Pairwise fun p q => p.le q ∧ p ≠ q :=
  (Archives.pairwise_find fs root).and (Archives.nodup_find single root)

theorem models_run_eq_ok_iff (p : Platform) {s : Settings} {dir : Option Path} {report : Json} :
    (models p s dir).run w = (.ok report, w') ↔
      ∃ x, Extractor.ofSettings p.programs s.extractor = .ok x ∧ (modelsIn x s dir).run w = (.ok report, w') := by
  unfold models
  rw [bind_run_eq_ok_iff]
  constructor
  · rintro ⟨x, _, begun, done⟩
    obtain ⟨made, rfl⟩ := orComplain_run_eq_ok_iff.1 begun
    exact ⟨x, made, done⟩
  · rintro ⟨x, made, done⟩
    exact ⟨x, w, orComplain_run_eq_ok_iff.2 ⟨made, rfl⟩, done⟩

theorem treatsAll_of_modelsIn {s : Settings} {dir : Option Path} {report : Json}
    (done : (modelsIn x s dir).run w = (.ok report, w')) :
    let found := Archives.find w.files (dir.getD s.analysis.datasetPath)
    ∃ ts, TreatsAll x s.analysis.focusThreshold w ts w' ∧ ts.map (·.archive) = found ∧
      report = modelsReport x.backend.name found.length (ts.filterMap (·.row? s.analysis.focusThreshold))
        w'.models.counts false w'.log := by
  obtain ⟨_, _, got, done⟩ := bind_run_eq_ok_iff.1 done
  cases got
  obtain ⟨rows, v, extracted, done⟩ := bind_run_eq_ok_iff.1 done
  obtain ⟨_, _, got, done⟩ := bind_run_eq_ok_iff.1 done
  cases got
  obtain ⟨_, _, got, done⟩ := bind_run_eq_ok_iff.1 done
  cases got
  obtain ⟨rfl, rfl⟩ := pure_run_eq_ok_iff.1 done
  obtain ⟨ts, all, archives, rfl⟩ := treatsAll_of_modelRows extracted
  exact ⟨ts, all, archives, rfl⟩

/-- A run over a tree that ends with a report treats each archive found once, in the order of the paths. It is skipped if it
lies outside the layout of a repository; or the failure to extract its model is reported; or it gets a row, and both of its
focus files, which are still there at the end unless the backend changes focus files itself. A program begins with nothing
reported and nothing counted; then archives are rows, reported failures and skipped ones together, and models that were
extracted or found in the cache are as many as rows. -/
theorem models_treats_each_archive {w : World} (single : w.files.Unambiguous) (s : Settings) (dir : Option Path) (w' : World)
    (report : Json) :
    (∀ p, (models p s dir).run w = (.ok report, w') ↔
      ∃ x, Extractor.ofSettings p.programs s.extractor = .ok x ∧ (modelsIn x s dir).run w = (.ok report, w')) ∧
    ∀ x, (modelsIn x s dir).run w = (.ok report, w') →
      let found := Archives.find w.files (dir.getD s.analysis.datasetPath)
      let threshold := s.analysis.focusThreshold
      ∃ ts, ts.map (·.archive) = found ∧ found.Pairwise (fun p q => p.le q ∧ p ≠ q) ∧ TreatsAll x threshold w ts w' ∧
        (x.backend.SparesFocus → ∀ archive c g, ⟨archive, .listed c g⟩ ∈ ts →
          Focus.Written w'.files archive g threshold) ∧
        let rows := ts.filterMap (·.row? threshold)
        let counts := w'.models.counts
        report = modelsReport x.backend.name found.length rows counts false w'.log ∧
        w'.log = w.log ++ ts.filterMap (·.diagnostic?) ∧
        (w.log = [] → w.models.counts = {} →
          found.length = rows.length + w'.log.count .extractionFailure + ts.countP (·.isSkipped) ∧
          counts.extractions + (counts.memoryHits + counts.diskHits) = rows.length) := by
  refine ⟨fun p => models_run_eq_ok_iff p, fun x done => ?_⟩
  intro found threshold
  obtain ⟨ts, all, archives, reported⟩ := treatsAll_of_modelsIn done
  obtain ⟨log, answered⟩ := all.counts
  refine ⟨ts, archives, pairwise_lt_find single _, all, fun spared archive c g listed => ?_, reported, log, ?_⟩
  · refine all.written spared ?_ listed
    rw [archives]
    exact pairwise_apart_find single _
  · intro quiet fresh
    have length : found.length = ts.length := (congrArg List.length archives).symm.trans (List.length_map _)
    constructor
    · rw [log, quiet, List.nil_append, count_diagnostics, length]
      exact length_eq_of_kinds threshold ts
    · rw [fresh] at answered
      simp only [CacheCounts.answered, Nat.zero_add] at answered
      rw [← answered]
      omega

section MixedTree

/-- A tree with two archives of one release, one without facts, and one outside the layout. -/
def mixedTree : FileStore where
  nodes := [(["dataset"], .directory), (["dataset", "clients"], .directory), (["dataset", "clients", "g"], .directory),
    (["dataset", "clients", "g", "a"], .directory), (["dataset", "clients", "g", "a", "1"], .directory),
    (["dataset", "clients", "g", "a", "1", "a-1.jar"], .file "x".toUTF8 5),
    (["dataset", "clients", "g", "a", "1", "a-1.jar.calls"], .file "m#f".toUTF8 5),
    (["dataset", "clients", "g", "b"], .directory), (["dataset", "clients", "g", "b", "1"], .directory),
    (["dataset", "clients", "g", "b", "1", "b-1.jar"], .file "x".toUTF8 5),
    (["dataset", "clients", "z.jar"], .file "x".toUTF8 5),
    (["dataset", "libraries"], .directory), (["dataset", "libraries", "g"], .directory),
    (["dataset", "libraries", "g", "a"], .directory), (["dataset", "libraries", "g", "a", "1"], .directory),
    (["dataset", "libraries", "g", "a", "1", "a-1.jar"], .file "x".toUTF8 5)]

def mixedArchives : List Path := [⟨"dataset/clients/g/a/1/a-1.jar"⟩, ⟨"dataset/clients/g/b/1/b-1.jar"⟩,
  ⟨"dataset/clients/z.jar"⟩, ⟨"dataset/libraries/g/a/1/a-1.jar"⟩]

theorem find_mixedTree : Archives.find mixedTree ⟨"dataset"⟩ = mixedArchives := by
  have archives : (Archives.filesBelow mixedTree ⟨"dataset"⟩).filter Archives.isArchive = mixedArchives := by
    decide +kernel
  have ordered : mixedArchives.Pairwise fun p q => Path.le p q := by decide +kernel
  rw [Archives.find, archives, List.mergeSort_of_pairwise ordered]

def facts : Extractor := ⟨.facts, some ⟨".depshift-cache"⟩⟩

/-- Whether there are rows, what is counted, and what is reported. -/
def tally (ended : Except Complaint (List ModelRow) × World) : Bool × CacheCounts × List (DiagnosticKind × String) :=
  match ended with
  | (rows, w) => (rows.isOk, w.models.counts, w.log.map fun d => (d.kind, d.subject))

theorem tally_mixedArchives :
    tally ((modelRows facts 8 mixedArchives).run { files := mixedTree }) =
      (true, { extractions := 1, memoryHits := 1 }, [(.extractionFailure, "g:b:1")]) := by
  decide +kernel

theorem exists_ended_mixedArchives : ∃ rows w',
    (modelRows facts 8 mixedArchives).run { files := mixedTree } = (.ok rows, w') ∧
      w'.models.counts = { extractions := 1, memoryHits := 1 } ∧
      w'.log.map (fun d => (d.kind, d.subject)) = [(.extractionFailure, "g:b:1")] := by
  have told := tally_mixedArchives
  generalize (modelRows facts 8 mixedArchives).run { files := mixedTree } = ended at *
  obtain ⟨rows | rows, w'⟩ := ended
  · cases congrArg (·.1) told
  · exact ⟨rows, w', rfl, congrArg (·.2.1) told, congrArg (·.2.2) told⟩

theorem models_treats_each_archive_of_mixedTree : mixedTree.Unambiguous ∧
    ∃ report w', (∀ p, (models p {} none).run { files := mixedTree } = (.ok report, w')) ∧
      w'.log.count .extractionFailure = 1 ∧ w'.models.counts = { extractions := 1, memoryHits := 1 } ∧
      ∃ ts, ts.map (·.archive) = mixedArchives ∧ TreatsAll facts 8 { files := mixedTree } ts w' ∧
        (∀ archive c g, ⟨archive, .listed c g⟩ ∈ ts → Focus.Written w'.files archive g 8) ∧
        (ts.filterMap (·.row? 8)).length = 2 ∧ ts.countP (·.isSkipped) = 1 := by
  have single : mixedTree.Unambiguous := ⟨by decide +kernel⟩
  have whole : (modelsIn facts {} none).run { files := mixedTree } = (do
      let rows ← modelRows facts 8 (Archives.find mixedTree ⟨"dataset"⟩)
      return modelsReport "facts" (Archives.find mixedTree ⟨"dataset"⟩).length rows (← get).models.counts false (← log)
      : Attempt Json).run { files := mixedTree } := rfl
  obtain ⟨rows, w', ran, counts, reported⟩ := exists_ended_mixedArchives
  have done : (modelsIn facts {} none).run { files := mixedTree } =
      (.ok (modelsReport "facts" mixedArchives.length rows w'.models.counts false w'.log), w') := by
    rw [whole, find_mixedTree]
    exact bind_run_eq_ok_iff.2 ⟨rows, w', ran, rfl⟩
  have one : w'.log.count .extractionFailure = 1 := by
    have kinds : w'.log.map (·.kind) = [.extractionFailure] := by
      simpa [List.map_map] using congrArg (List.map (·.1)) reported
    have counted := congrArg (List.countP (· = DiagnosticKind.extractionFailure)) kinds
    rwa [List.countP_map] at counted
  obtain ⟨command, treated⟩ := models_treats_each_archive (w := { files := mixedTree }) single {} none w'
    (modelsReport "facts" mixedArchives.length rows w'.models.counts false w'.log)
  obtain ⟨ts, archives, -, all, written, -, -, adds⟩ := treated facts done
  obtain ⟨total, answered⟩ := adds rfl rfl
  have spared : facts.backend.SparesFocus := Backend.sparesFocus_facts
  have length : (ts.filterMap (·.row? 8)).length = 2 := by
    rw [counts] at answered
    exact answered.symm
  refine ⟨single, _, w', fun p => (command p).2 ⟨facts, rfl, done⟩, one, counts, ts, archives.trans find_mixedTree, all, written spared, length, ?_⟩
  have four : (Archives.find mixedTree ⟨"dataset"⟩).length = 4 := congrArg List.length find_mixedTree
  change (Archives.find mixedTree ⟨"dataset"⟩).length = (ts.filterMap (·.row? 8)).length + _ + _ at total
  omega

end MixedTree

end MigrationMining.Console
