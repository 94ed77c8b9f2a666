import MigrationMining.Proofs.CacheEntry

/-! Extracting with a cache answers what extracting without one would, whatever happened to the entries of the cache in
between: they may be missing or unreadable, or they were written. -/

namespace MigrationMining

/-- A call for the model of a snapshot, with the store that it finds. -/
structure CacheCall where
  snapshot : Snapshot
  store : ModelStore

namespace CacheCall

def identity (c : CacheCall) : SnapshotIdentity := c.snapshot.identity c.store.files

def key (c : CacheCall) : String := c.snapshot.key c.store.files

def held? (c : CacheCall) : Option CodeModel := c.store.cache.models[c.key]?

theorem key_identity (c : CacheCall) : c.identity.key = c.key := SnapshotIdentity.key_identity c.snapshot c.store.files

end CacheCall

@[simp] theorem isOk_ok {ε α : Type} (a : α) : (Except.ok a : Except ε α).isOk = true := rfl

@[simp] theorem isOk_error {ε α : Type} (e : ε) : (Except.error e : Except ε α).isOk = false := rfl

def CacheCounts.answered (n : CacheCounts) : Nat := n.memoryHits + n.diskHits + n.extractions

namespace Extractor

variable (x : Extractor)

def answer (c : CacheCall) : Except ExtractFailure CodeModel := (x.model c.snapshot c.store).1

def left (c : CacheCall) : ModelStore := (x.model c.snapshot c.store).2

/-- The entry that a call throws away: the one it looks at, if that cannot be read. -/
def unreadable? (c : CacheCall) : Option Path :=
  match c.held? with
  | some _ => none
  | none => (x.entry? c.key).filter fun entry => !(readEntry c.store.files entry).isOk

def presented (c : CacheCall) : FileStore :=
  match x.unreadable? c with
  | some entry => attempt c.store.files (·.remove entry)
  | none => c.store.files

/-- What the backend would answer, and the files that it would leave. -/
def asked (c : CacheCall) : Except ExtractFailure CodeModel × FileStore :=
  x.backend.extract c.snapshot.path (x.presented c)

/-- The counts of a call that does not find the model in memory, before an answer is counted. -/
def discarding (c : CacheCall) : CacheCounts :=
  match x.unreadable? c with
  | some _ => { c.store.cache.counts with discarded := c.store.cache.counts.discarded + 1 }
  | none => c.store.cache.counts

/-- The files after a model was written to the entry of a key, if there are entries. -/
def written (key : String) (m : CodeModel) (files : FileStore) : FileStore :=
  match x.entry? key with
  | some entry => writeEntry files entry m
  | none => files

/-- A call with its answer and the store that it leaves. -/
inductive Ends (c : CacheCall) : Except ExtractFailure CodeModel → ModelStore → Prop where
  | memory {m : CodeModel} (held : c.held? = some m) :
      Ends c (.ok m) (counting (fun n => { n with memoryHits := n.memoryHits + 1 }) c.store)
  | disk {entry : Path} {m : CodeModel} (missed : c.held? = none) (kept : x.entry? c.key = some entry)
      (read : readEntry c.store.files entry = .ok (some m)) :
      Ends c (.ok m) (remember c.key m (fun n => { n with diskHits := n.diskHits + 1 }) c.store)
  | failed {e : ExtractFailure} (missed : c.held? = none) (refused : (x.asked c).1 = .error e) :
      Ends c (.error e) ⟨(x.asked c).2, c.store.cache.models, x.discarding c⟩
  | extracted {m : CodeModel} (missed : c.held? = none) (extracted : (x.asked c).1 = .ok m) :
      Ends c (.ok m) (remember c.key m (fun n => { n with extractions := n.extractions + 1 })
        ⟨x.written c.key m (x.asked c).2, c.store.cache.models, x.discarding c⟩)

variable {x} {c : CacheCall}

theorem ends_of_extract {s : ModelStore} (missed : c.held? = none) (files : s.files = x.presented c)
    (cache : s.cache = ⟨c.store.cache.models, x.discarding c⟩) :
    x.Ends c (x.extract c.key c.snapshot.path s).1 (x.extract c.key c.snapshot.path s).2 := by
  obtain rfl : s = ⟨x.presented c, c.store.cache.models, x.discarding c⟩ := by
    cases s
    simp_all
  cases refused : (x.asked c).1 with
  | error e =>
    have same : x.extract c.key c.snapshot.path ⟨x.presented c, c.store.cache.models, x.discarding c⟩ =
        (.error e, ⟨(x.asked c).2, c.store.cache.models, x.discarding c⟩) := by
      simp only [asked] at refused
      simp [extract, refused, asked]
    rw [same]
    exact .failed missed refused
  | ok m =>
    have same : x.extract c.key c.snapshot.path ⟨x.presented c, c.store.cache.models, x.discarding c⟩ =
        (.ok m, remember c.key m (fun n => { n with extractions := n.extractions + 1 })
          ⟨x.written c.key m (x.asked c).2, c.store.cache.models, x.discarding c⟩) := by
      simp only [asked] at refused
      simp only [extract, refused, asked, written]
      cases x.entry? c.key <;> rfl
    rw [same]
    exact .extracted missed refused

theorem ends (c : CacheCall) : x.Ends c (x.answer c) (x.left c) := by
  unfold answer left
  have key : c.snapshot.key c.store.files = c.key := rfl
  cases held : c.held? with
  | some m =>
    have at_key : c.store.cache.models[c.key]? = some m := held
    simp only [model, key, at_key]
    exact .memory held
  | none =>
    have at_key : c.store.cache.models[c.key]? = none := held
    cases kept : x.entry? c.key with
    | none =>
      have readable : x.unreadable? c = none := by simp [unreadable?, held, kept]
      simp only [model, key, at_key, kept]
      exact ends_of_extract held (by simp [presented, readable]) (by simp [discarding, readable])
    | some entry =>
      cases read : readEntry c.store.files entry with
      | error e =>
        have unreadable : x.unreadable? c = some entry := by simp [unreadable?, held, kept, read]
        simp only [model, key, at_key, kept, read]
        exact ends_of_extract held (by simp [presented, unreadable, counting]) (by simp [discarding, unreadable, counting])
      | ok found =>
        have readable : x.unreadable? c = none := by simp [unreadable?, held, kept, read]
        cases found with
        | none =>
          simp only [model, key, at_key, kept, read]
          exact ends_of_extract held (by simp [presented, readable]) (by simp [discarding, readable])
        | some m =>
          simp only [model, key, at_key, kept, read]
          exact .disk held kept read

variable (x) in
def extracts (c : CacheCall) : Bool := c.store.cache.counts.extractions < (x.left c).cache.counts.extractions

theorem discarding_eq (c : CacheCall) : x.discarding c = { c.store.cache.counts with
    discarded := c.store.cache.counts.discarded + (x.unreadable? c).isSome.toNat } := by
  unfold discarding
  cases x.unreadable? c <;> simp

theorem unreadable?_of_held {m : CodeModel} (held : c.held? = some m) : x.unreadable? c = none := by
  simp [unreadable?, held]

theorem unreadable?_of_read {entry : Path} {found : Option CodeModel} (kept : x.entry? c.key = some entry)
    (read : readEntry c.store.files entry = .ok found) : x.unreadable? c = none := by
  cases held : c.held? <;> simp [unreadable?, held, kept, read]

section Ends

variable {r : Except ExtractFailure CodeModel} {s : ModelStore}

theorem Ends.counts (way : x.Ends c r s) : s.cache.counts.answered = c.store.cache.counts.answered + r.isOk.toNat ∧
    s.cache.counts.discarded = c.store.cache.counts.discarded + (x.unreadable? c).isSome.toNat := by
  cases way with
  | memory held =>
    simp [counting, CacheCounts.answered, unreadable?_of_held held]
    omega
  | disk missed kept read =>
    simp [remember, CacheCounts.answered, unreadable?_of_read kept read]
    omega
  | failed missed refused =>
    simp [discarding_eq, CacheCounts.answered]
  | extracted missed extracted =>
    simp [remember, discarding_eq, CacheCounts.answered]
    omega

theorem Ends.asked_of_unreadable (way : x.Ends c r s) {entry : Path} (unreadable : x.unreadable? c = some entry) :
    r = (x.asked c).1 ∧ s.cache.counts.memoryHits = c.store.cache.counts.memoryHits ∧
      s.cache.counts.diskHits = c.store.cache.counts.diskHits := by
  cases way with
  | memory held => simp [unreadable?_of_held held] at unreadable
  | disk missed kept read => simp [unreadable?_of_read kept read] at unreadable
  | failed missed refused => simp [discarding_eq, refused]
  | extracted missed extracted => simp [remember, discarding_eq, extracted]

theorem Ends.held_of_held (way : x.Ends c r s) {k : String} (held : (c.store.cache.models[k]?).isSome) :
    (s.cache.models[k]?).isSome := by
  have inserted (m : CodeModel) : ((c.store.cache.models.insert c.key m)[k]?).isSome := by
    rw [Std.ExtTreeMap.getElem?_insert]
    split
    · rfl
    · exact held
  cases way with
  | memory _ => exact held
  | disk _ _ _ => exact inserted _
  | failed _ _ => exact held
  | extracted _ _ => exact inserted _

theorem Ends.held_of_more (way : x.Ends c r s) (more : c.store.cache.counts.extractions < s.cache.counts.extractions) :
    (s.cache.models[c.key]?).isSome := by
  cases way with
  | memory held => simp [counting] at more
  | disk missed kept read => simp [remember] at more
  | failed missed refused => simp [discarding_eq] at more
  | extracted missed extracted => simp [remember]

theorem Ends.not_more_of_held (way : x.Ends c r s) (held : c.held?.isSome) :
    ¬ c.store.cache.counts.extractions < s.cache.counts.extractions := by
  cases way with
  | memory _ => simp [counting]
  | disk missed _ _ => simp [missed] at held
  | failed missed _ => simp [missed] at held
  | extracted missed _ => simp [missed] at held

end Ends

variable (x) in
/-- Each entry is missing, or unreadable, or holds the model of its identity as it was written. -/
def EntriesOf (answers : SnapshotIdentity → Except ExtractFailure CodeModel) (ids : Set SnapshotIdentity)
    (files : FileStore) : Prop :=
  ∀ i ∈ ids, ∀ entry, x.entry? i.key = some entry → ∀ content, files.contentAt? entry.place = some content →
    ModelFacts.parse content = none ∨ ∃ m, answers i = .ok m ∧ content = m.facts.stored

variable (x) in
/-- Each entry is as it may be, and each model in memory is the answer for its identity. -/
structure StoreOf (answers : SnapshotIdentity → Except ExtractFailure CodeModel) (ids : Set SnapshotIdentity)
    (s : ModelStore) : Prop where
  entries : x.EntriesOf answers ids s.files
  models : ∀ i ∈ ids, ∀ m, s.cache.models[i.key]? = some m → answers i = .ok m

variable (x) in
/-- The backend answers a call as the identity of the archive wants it, and spoils no entry. -/
structure AnswersBy (answers : SnapshotIdentity → Except ExtractFailure CodeModel) (ids : Set SnapshotIdentity)
    (c : CacheCall) : Prop where
  known : c.identity ∈ ids
  asked : (x.asked c).1 = answers c.identity
  spared : x.EntriesOf answers ids (x.presented c) → x.EntriesOf answers ids (x.asked c).2

section StoreOf

variable {answers : SnapshotIdentity → Except ExtractFailure CodeModel} {ids : Set SnapshotIdentity}

theorem EntriesOf.of_presented (entries : x.EntriesOf answers ids c.store.files) :
    x.EntriesOf answers ids (x.presented c) := by
  intro i known entry kept content held
  unfold presented at held
  split at held
  · exact entries i known entry kept content (content_of_attempt_remove held)
  · exact entries i known entry kept content held

theorem EntriesOf.of_written (told : SnapshotIdentity.ToldApart ids) {files : FileStore}
    (entries : x.EntriesOf answers ids files) {i : SnapshotIdentity} (known : i ∈ ids) {m : CodeModel}
    (answered : answers i = .ok m) : x.EntriesOf answers ids (x.written i.key m files) := by
  intro j known' entry' kept' content held
  unfold written at held
  split at held
  · next entry kept =>
    rcases content_of_writeEntry (place_ne_part kept' kept) held with ⟨here, stored⟩ | old
    · have same : j = i := told.key_inj known' known (key_eq_of_place_eq kept' kept here)
      subst same
      exact .inr ⟨m, answered, stored⟩
    · exact entries j known' entry' kept' content old
  · exact entries j known' entry' kept' content held

theorem EntriesOf.answers_of_read (built : ∀ i ∈ ids, ∀ m, answers i = .ok m → ∃ facts, m.callGraph = .ofFacts facts)
    {files : FileStore} (entries : x.EntriesOf answers ids files) {i : SnapshotIdentity} (known : i ∈ ids) {entry : Path}
    (kept : x.entry? i.key = some entry) {m : CodeModel} (read : readEntry files entry = .ok (some m)) :
    answers i = .ok m := by
  obtain ⟨content, f, held, parsed, rfl⟩ := readEntry_eq_ok_some read
  rcases entries i known entry kept content held with unreadable | ⟨m, answered, stored⟩
  · rw [parsed] at unreadable
    cases unreadable
  · have same : f = m.facts := by
      rw [stored, ModelFacts.parse_stored] at parsed
      exact (Option.some.inj parsed).symm
    rw [same, CodeModel.model_facts (built i known m answered), answered]

theorem StoreOf.of_remember (told : SnapshotIdentity.ToldApart ids) {s : ModelStore} (store : x.StoreOf answers ids s)
    {i : SnapshotIdentity} (known : i ∈ ids) {m : CodeModel} (answered : answers i = .ok m)
    (count : CacheCounts → CacheCounts) : x.StoreOf answers ids (remember i.key m count s) := by
  refine ⟨store.entries, fun j known' m' held => ?_⟩
  simp only [remember, Std.ExtTreeMap.getElem?_insert] at held
  split at held
  · next same =>
    have keys : i.key = j.key := Std.compare_eq_iff_eq.1 same
    have identity : i = j := told.key_inj known known' keys
    rw [← identity, answered, Option.some.inj held]
  · exact store.models j known' m' held

theorem Ends.right (told : SnapshotIdentity.ToldApart ids)
    (built : ∀ i ∈ ids, ∀ m, answers i = .ok m → ∃ facts, m.callGraph = .ofFacts facts)
    (by_identity : x.AnswersBy answers ids c) (store : x.StoreOf answers ids c.store)
    {r : Except ExtractFailure CodeModel} {s : ModelStore} (way : x.Ends c r s) :
    r = answers c.identity ∧ x.StoreOf answers ids s := by
  have key := c.key_identity
  have known := by_identity.known
  -- the backend may change files, but no entry for the worse, and only the entry of the call is written then
  have after : x.EntriesOf answers ids (x.asked c).2 := by_identity.spared store.entries.of_presented
  cases way with
  | @memory m held =>
    have answered : answers c.identity = .ok m := by
      refine store.models _ known m ?_
      rw [key]
      exact held
    exact ⟨answered.symm, store.entries, store.models⟩
  | @disk entry m missed kept read =>
    rw [← key] at kept ⊢
    have answered : answers c.identity = .ok m := store.entries.answers_of_read built known kept read
    exact ⟨answered.symm, store.of_remember told known answered _⟩
  | failed missed refused =>
    have answered := by_identity.asked
    rw [refused] at answered
    exact ⟨answered, after, store.models⟩
  | @extracted m missed extracted =>
    have answered : answers c.identity = .ok m := by rw [← by_identity.asked, extracted]
    rw [← key]
    have filed : x.StoreOf answers ids
        ⟨x.written c.identity.key m (x.asked c).2, c.store.cache.models, x.discarding c⟩ :=
      ⟨after.of_written told known answered, store.models⟩
    exact ⟨answered.symm, filed.of_remember told known answered _⟩

end StoreOf

end Extractor

/-- What happens to a cache: a model is asked for, a new extractor begins with the files that are there, or other programs
change the files. -/
inductive CacheEvent where
  | call (snapshot : Snapshot)
  | restart
  | change (files : FileStore)

namespace Extractor

variable (x : Extractor)

def perform (s : ModelStore) : CacheEvent → ModelStore
  | .call snapshot => x.left ⟨snapshot, s⟩
  | .restart => { files := s.files }
  | .change files => { s with files }

def after (s : ModelStore) (events : List CacheEvent) : ModelStore := events.foldl x.perform s

def calls (s : ModelStore) : List CacheEvent → List CacheCall
  | [] => []
  | .call snapshot :: es => ⟨snapshot, s⟩ :: calls (x.perform s (.call snapshot)) es
  | .restart :: es => calls (x.perform s .restart) es
  | .change files :: es => calls (x.perform s (.change files)) es

variable {x} {s : ModelStore}

@[simp] theorem after_cons (s : ModelStore) (e : CacheEvent) (es : List CacheEvent) :
    x.after s (e :: es) = x.after (x.perform s e) es := rfl

theorem after_append (s : ModelStore) (es fs : List CacheEvent) : x.after s (es ++ fs) = x.after (x.after s es) fs := by
  simp [after]

theorem right_of_calls {answers : SnapshotIdentity → Except ExtractFailure CodeModel} {ids : Set SnapshotIdentity}
    (told : SnapshotIdentity.ToldApart ids)
    (built : ∀ i ∈ ids, ∀ m, answers i = .ok m → ∃ facts, m.callGraph = .ofFacts facts) {events : List CacheEvent}
    (store : x.StoreOf answers ids s) (changes : ∀ files, .change files ∈ events → x.EntriesOf answers ids files)
    (by_identity : ∀ c ∈ x.calls s events, x.AnswersBy answers ids c) :
    ∀ c ∈ x.calls s events, x.answer c = answers c.identity := by
  -- the store that an event finds is such that the one it leaves answers right as well
  induction events generalizing s with
  | nil => simp [calls]
  | cons e es ih =>
    have later (files : FileStore) (mem : .change files ∈ es) : x.EntriesOf answers ids files :=
      changes files (List.mem_cons_of_mem e mem)
    cases e with
    | call snapshot =>
      obtain ⟨first, rest⟩ := List.forall_mem_cons.1 by_identity
      obtain ⟨right, left⟩ := (x.ends ⟨snapshot, s⟩).right told built first store
      exact List.forall_mem_cons.2 ⟨right, ih left later rest⟩
    | restart => exact ih ⟨store.entries, by simp [perform]⟩ later by_identity
    | change files => exact ih ⟨changes files List.mem_cons_self, store.models⟩ later by_identity

section OneExtractor

variable {events : List CacheEvent}

/-- The calls of one extractor count as many models as they answer, and as many entries as they throw away. -/
theorem counts_after (one : .restart ∉ events) :
    (x.after s events).cache.counts.answered =
      s.cache.counts.answered + (x.calls s events).countP (x.answer · |>.isOk) ∧
    (x.after s events).cache.counts.discarded =
      s.cache.counts.discarded + (x.calls s events).countP fun c => (x.unreadable? c).isSome := by
  induction events generalizing s with
  | nil => simp [after, calls]
  | cons e es ih =>
    obtain ⟨other, rest⟩ := List.ne_and_not_mem_of_not_mem_cons one
    obtain ⟨answered, discarded⟩ := ih rest (s := x.perform s e)
    cases e with
    | call snapshot =>
      have first := (x.ends ⟨snapshot, s⟩).counts
      simp only [perform] at answered discarded
      simp only [after_cons, calls, perform, List.countP_cons, answered, discarded, first]
      cases (x.answer ⟨snapshot, s⟩).isOk <;> cases (x.unreadable? ⟨snapshot, s⟩).isSome <;> simp <;> omega
    | restart => exact absurd rfl other
    | change files => exact ⟨answered, discarded⟩

theorem not_extracts_of_held (one : .restart ∉ events) {k : String} (held : (s.cache.models[k]?).isSome) :
    ∀ c ∈ x.calls s events, c.key = k → ¬ x.extracts c := by
  induction events generalizing s with
  | nil => simp [calls]
  | cons e es ih =>
    obtain ⟨other, rest⟩ := List.ne_and_not_mem_of_not_mem_cons one
    cases e with
    | call snapshot =>
      have way := x.ends ⟨snapshot, s⟩
      refine List.forall_mem_cons.2 ⟨?_, ih rest (way.held_of_held held)⟩
      rintro rfl
      have first := way.not_more_of_held held
      simpa [extracts] using first
    | restart => exact absurd rfl other
    | change files => exact ih rest held

theorem pairwise_extracts (one : .restart ∉ events) :
    (x.calls s events).Pairwise fun c d => c.identity = d.identity → ¬ (x.extracts c ∧ x.extracts d) := by
  induction events generalizing s with
  | nil => exact List.Pairwise.nil
  | cons e es ih =>
    obtain ⟨other, rest⟩ := List.ne_and_not_mem_of_not_mem_cons one
    cases e with
    | call snapshot =>
      refine List.pairwise_cons.2 ⟨fun d later same => ?_, ih rest⟩
      rintro ⟨first, second⟩
      have more : s.cache.counts.extractions < (x.left ⟨snapshot, s⟩).cache.counts.extractions := by
        simpa [extracts] using first
      have held := (x.ends ⟨snapshot, s⟩).held_of_more more
      have keys : d.key = CacheCall.key ⟨snapshot, s⟩ := by rw [← CacheCall.key_identity, ← CacheCall.key_identity, same]
      exact not_extracts_of_held rest held d later keys second
    | restart => exact absurd rfl other
    | change files => exact ih rest

end OneExtractor

/-- Let the backend answer by the identity of the archive: by the text of its coordinate, its size and its time, where all
times before 1970 count as 1970. From any files whose entries are missing, unreadable or written for their identity, and
with whatever happens to the files that leaves them so, each call answers what the backend would, and a call that finds
its entry unreadable asks the backend. One extractor extracts no model twice, and what it counts adds up. -/
theorem model_transparent {x : Extractor} {answers : SnapshotIdentity → Except ExtractFailure CodeModel}
    {ids : Set SnapshotIdentity} (told : SnapshotIdentity.ToldApart ids)
    (built : ∀ i ∈ ids, ∀ m, answers i = .ok m → ∃ facts, m.callGraph = .ofFacts facts) {files : FileStore}
    (entries : x.EntriesOf answers ids files) {events : List CacheEvent}
    (changes : ∀ changed, .change changed ∈ events → x.EntriesOf answers ids changed)
    (by_identity : ∀ c ∈ x.calls { files } events, x.AnswersBy answers ids c) :
    (∀ c ∈ x.calls { files } events, x.answer c = answers c.identity ∧ x.answer c = (x.asked c).1) ∧
    (∀ c ∈ x.calls { files } events, ∀ entry, x.unreadable? c = some entry →
      (x.left c).cache.counts.discarded = c.store.cache.counts.discarded + 1 ∧
      (x.left c).cache.counts.memoryHits = c.store.cache.counts.memoryHits ∧
      (x.left c).cache.counts.diskHits = c.store.cache.counts.diskHits) ∧
    ∀ past present, events = past ++ present → .restart ∉ present → (x.after { files } past).cache = {} →
      let calls := x.calls (x.after { files } past) present
      let counts := (x.after { files } events).cache.counts
      (calls.Pairwise fun c d => c.identity = d.identity → ¬ (x.extracts c ∧ x.extracts d)) ∧
      counts.memoryHits + counts.diskHits + counts.extractions = calls.countP (x.answer · |>.isOk) ∧
      counts.discarded = calls.countP fun c => (x.unreadable? c).isSome := by
  have store : x.StoreOf answers ids { files } := ⟨entries, by simp⟩
  have right := right_of_calls told built store changes by_identity
  refine ⟨fun c called => ?_, fun c called entry unreadable => ?_, ?_⟩
  · have answered := right c called
    exact ⟨answered, by rw [answered, (by_identity c called).asked]⟩
  · have way := x.ends c
    obtain ⟨-, memory, disk⟩ := way.asked_of_unreadable unreadable
    have discarded := way.counts.2
    rw [unreadable] at discarded
    exact ⟨discarded, memory, disk⟩
  · rintro past present rfl one fresh
    obtain ⟨answered, discarded⟩ := counts_after (x := x) (s := x.after { files } past) one
    rw [← after_append, fresh] at answered discarded
    refine ⟨pairwise_extracts one, ?_, ?_⟩
    · simpa [CacheCounts.answered] using answered
    · simpa using discarded

section CutOffEntry

def cachedArchive : SnapshotIdentity := ⟨"g:a:1", some ⟨1, 5⟩⟩

def missingArchive : SnapshotIdentity := ⟨"g:b:1", none⟩

/-- An archive with its facts, and an entry of it that was cut off. -/
def cutOffEntry : FileStore where
  nodes := [(["a.jar"], .file "x".toUTF8 5), (["a.jar.calls"], .file "m#f".toUTF8 5), (["a.jar.decls"], .file "f".toUTF8 5),
    (["cache"], .directory), (["cache", cachedArchive.key ++ ".json"], .file "[".toUTF8 0)]

def factsExtractor : Extractor := ⟨.facts, some ⟨"cache"⟩⟩

def factsOf (i : SnapshotIdentity) : Except ExtractFailure CodeModel :=
  if i = cachedArchive then .ok ⟨Sidecar.declarations "f", (Sidecar.calls "m#f").1⟩ else .error (.missingModel ⟨"b.jar"⟩)

def restartedCalls : List CacheEvent :=
  let a : Snapshot := ⟨⟨"g", "a", "1"⟩, ⟨"a.jar"⟩⟩
  let b : Snapshot := ⟨⟨"g", "b", "1"⟩, ⟨"b.jar"⟩⟩
  [.call b, .call a, .restart, .call a]

theorem toldApart_archives : SnapshotIdentity.ToldApart {cachedArchive, missingArchive} := by
  have bytes : cachedArchive.bytes ≠ missingArchive.bytes := by decide +kernel
  have keys : cachedArchive.key ≠ missingArchive.key := by decide +kernel
  refine ⟨?_, ?_, ?_⟩
  · rintro i (rfl | rfl) a stamp
    · cases stamp
      decide
    · cases stamp
  · rintro i (rfl | rfl) j (rfl | rfl) none some
    · cases none
    · cases none
    · exact bytes.symm
    · exact absurd rfl some
  · rintro _ ⟨i, rfl | rfl, rfl⟩ _ ⟨j, rfl | rfl, rfl⟩ same
    · rfl
    · exact absurd same keys
    · exact absurd same.symm keys
    · rfl

theorem entriesOf_cutOffEntry : factsExtractor.EntriesOf factsOf {cachedArchive, missingArchive} cutOffEntry := by
  have unreadable (i : SnapshotIdentity) (known : i = cachedArchive ∨ i = missingArchive) :
      (cutOffEntry.contentAt? ((⟨"cache"⟩ : Path) / (i.key ++ ".json")).place).bind ModelFacts.parse = none := by
    rcases known with rfl | rfl
    · decide +kernel
    · decide +kernel
  intro i known entry kept content held
  have none := unreadable i known
  cases kept
  rw [held] at none
  exact .inl none

/-- What a call is about, what lies beside its archive, and what is counted after it. -/
def findings (c : CacheCall) := ((c.identity, c.snapshot.path, (factsExtractor.left c).cache.counts),
  Sidecar.text? (factsExtractor.presented c) c.snapshot.path Sidecar.callsSuffix,
  Sidecar.text? (factsExtractor.presented c) c.snapshot.path Sidecar.declarationsSuffix)

theorem findings_restartedCalls : (factsExtractor.calls { files := cutOffEntry } restartedCalls).map findings =
    [((missingArchive, ⟨"b.jar"⟩, ⟨0, 0, 0, 0⟩), .ok none, .ok none),
      ((cachedArchive, ⟨"a.jar"⟩, ⟨0, 0, 1, 1⟩), .ok (some "m#f"), .ok (some "f")),
      ((cachedArchive, ⟨"a.jar"⟩, ⟨0, 1, 0, 0⟩), .ok (some "m#f"), .ok (some "f"))] := by
  decide +kernel

theorem answersBy_factsOf {c : CacheCall} (called : c ∈ factsExtractor.calls { files := cutOffEntry } restartedCalls) :
    factsExtractor.AnswersBy factsOf {cachedArchive, missingArchive} c := by
  have found : findings c ∈ (factsExtractor.calls { files := cutOffEntry } restartedCalls).map findings :=
    List.mem_map_of_mem called
  have asked : (factsExtractor.asked c).1 = Sidecar.model (factsExtractor.presented c) c.snapshot.path := rfl
  rw [findings_restartedCalls] at found
  by_cases identity : c.identity = cachedArchive
  · obtain ⟨calls, declarations⟩ : Sidecar.text? (factsExtractor.presented c) c.snapshot.path Sidecar.callsSuffix =
        .ok (some "m#f") ∧ Sidecar.text? (factsExtractor.presented c) c.snapshot.path Sidecar.declarationsSuffix =
        .ok (some "f") := by
      have other : cachedArchive ≠ missingArchive := by decide
      simp only [findings, identity, List.mem_cons, Prod.mk.injEq, other, List.not_mem_nil] at found
      tauto
    refine ⟨.inl identity, ?_, id⟩
    rw [asked, Sidecar.model, calls, declarations, identity]
    rfl
  · obtain ⟨missing, path, calls, declarations⟩ : c.identity = missingArchive ∧ c.snapshot.path = ⟨"b.jar"⟩ ∧
        Sidecar.text? (factsExtractor.presented c) c.snapshot.path Sidecar.callsSuffix = .ok none ∧
        Sidecar.text? (factsExtractor.presented c) c.snapshot.path Sidecar.declarationsSuffix = .ok none := by
      simp only [findings, identity, List.mem_cons, Prod.mk.injEq, List.not_mem_nil] at found
      tauto
    refine ⟨.inr missing, ?_, id⟩
    rw [asked, Sidecar.model, calls, declarations, missing, path]
    rfl

/-- The cut-off entry is thrown away and the model is extracted; the next extractor finds it in the new entry. The facts of
the other archive are missing. -/
theorem model_transparent_of_cutOffEntry :
    let calls := factsExtractor.calls { files := cutOffEntry } restartedCalls
    (∀ c ∈ calls, factsExtractor.answer c = factsOf c.identity ∧ factsExtractor.answer c = (factsExtractor.asked c).1) ∧
    calls.map (fun c => (c.identity, (factsExtractor.left c).cache.counts)) =
      [(missingArchive, ⟨0, 0, 0, 0⟩), (cachedArchive, ⟨0, 0, 1, 1⟩), (cachedArchive, ⟨0, 1, 0, 0⟩)] := by
  have built : ∀ i ∈ ({cachedArchive, missingArchive} : Set SnapshotIdentity), ∀ m, factsOf i = .ok m →
      ∃ facts, m.callGraph = .ofFacts facts := by
    intro i known m answered
    unfold factsOf at answered
    split at answered
    · cases answered
      exact ⟨_, rfl⟩
    · cases answered
  have unchanged (changed : FileStore) (mem : .change changed ∈ restartedCalls) :
      factsExtractor.EntriesOf factsOf {cachedArchive, missingArchive} changed := by
    simp [restartedCalls] at mem
  obtain ⟨answered, -, -⟩ := model_transparent toldApart_archives built entriesOf_cutOffEntry unchanged
    fun c called => answersBy_factsOf called
  have counted := congrArg (List.map fun f => (f.1.1, f.1.2.2)) findings_restartedCalls
  rw [List.map_map] at counted
  exact ⟨answered, counted⟩

end CutOffEntry

/-- Times before 1970 are not told apart: an archive that was replaced keeps its model. And an archive that is missing gets
the model of another one if its text ends as the other's does with size and time. -/
theorem model_of_earlier_time :
    let x : Extractor := ⟨.facts, none⟩
    let a : Snapshot := ⟨⟨"g", "a", "1"⟩, ⟨"a.jar"⟩⟩
    let b : Snapshot := ⟨⟨"g", "a", "1" ++ String.ofList (Char.ofNat 1 :: List.replicate 23 (Char.ofNat 0))⟩, ⟨"b.jar"⟩⟩
    let files (modified : Int) (declared : String) : FileStore := { nodes := [(["a.jar"], .file "x".toUTF8 modified),
      (["a.jar.decls"], .file declared.toUTF8 0), (["b.jar.decls"], .file "h".toUTF8 0)] }
    let told (m : Except ExtractFailure CodeModel) : Option (List String) := m.toOption.map (·.declarations.toList)
    (x.calls { files := files (-1) "f" } [.call a, .change (files (-2) "g"), .call a, .call b]).map
      (fun c => (told (x.answer c), told (x.asked c).1)) =
      [(some ["f"], some ["f"]), (some ["f"], some ["g"]), (some ["f"], some ["h"])] := by
  decide +kernel

end Extractor
end MigrationMining
