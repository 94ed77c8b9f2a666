import Mathlib.Data.List.Basic
import MigrationMining.Settings.Document
import MigrationMining.Settings.Environment

/-! Settings by their names: what a document says about a setting is its value, and its default where the document says
nothing; and variables change the settings that they are for, and no others. -/

namespace MigrationMining

abbrev SettingKey := String × String

abbrev SettingSections := List (String × List (String × Json))

namespace SettingSections

/-- The settings with values that depend on their names and what they were. -/
def change (f : SettingKey → Json → Json) (sections : SettingSections) : SettingSections :=
  sections.map fun s => (s.1, s.2.map fun member => (member.1, f (s.1, member.1) member.2))

variable {f g : SettingKey → Json → Json}

theorem change_change (sections : SettingSections) :
    change g (change f sections) = change (fun key old => g key (f key old)) sections := by
  simp [change]

theorem change_old (sections : SettingSections) : change (fun _ old => old) sections = sections := by
  simp [change]

theorem lookup_map {α : Type} (xs : List (String × α)) (f : String → α → α) (name : String) :
    (xs.map fun x => (x.1, f x.1 x.2)).lookup name = (xs.lookup name).map (f name) := by
  induction xs with
  | nil => rfl
  | cons x xs ih =>
    rw [List.map_cons, List.lookup_cons, List.lookup_cons]
    by_cases here : name = x.1
    · simp [here]
    · rw [beq_false_of_ne here]
      exact ih

def value? (sections : SettingSections) (key : SettingKey) : Option Json :=
  (sections.lookup key.1).bind (·.lookup key.2)

theorem value?_change (sections : SettingSections) (key : SettingKey) :
    (change f sections).value? key = (sections.value? key).map (f key) := by
  have members : (change f sections).lookup key.1 = (sections.lookup key.1).map fun members =>
      members.map fun member => (member.1, f (key.1, member.1) member.2) := by
    unfold change
    exact lookup_map sections (fun (part : String) (members : List (String × Json)) =>
      members.map fun member => (member.1, f (part, member.1) member.2)) key.1
  rw [value?, members, value?]
  cases sections.lookup key.1 with
  | none => rfl
  | some members => exact lookup_map members (fun name => f (key.1, name)) key.2

end SettingSections

namespace Settings

theorem nat_inj {a b : Nat} : Json.nat a = Json.nat b ↔ a = b := by simp [Json.nat]

theorem strings_inj {a b : List String} : Json.strings a = Json.strings b ↔ a = b := by
  have inj : Function.Injective Json.string := fun _ _ same => Json.string.inj same
  rw [Json.strings, Json.strings, Json.array.injEq, List.map_inj_right fun _ _ same => inj same]

theorem optional_inj {α : Type} {f : α → Json} (inj : ∀ {a b}, f a = f b ↔ a = b) (set : ∀ a, f a ≠ .null) {a b : Option α} :
    optional f a = optional f b ↔ a = b := by
  cases a <;> cases b <;> simp [optional, inj, set, Ne.symm (set _)]

def value? (s : Settings) (key : SettingKey) : Option Json := SettingSections.value? s.sections key

theorem sections_inj {s s' : Settings} (same : s.sections = s'.sections) : s = s' := by
  have attempts {a b : Option Nat} : optional .nat a = optional .nat b ↔ a = b :=
    optional_inj nat_inj (by simp [Json.nat])
  have command {a b : Option String} : optional .string a = optional .string b ↔ a = b :=
    optional_inj (by simp) (by simp)
  have path {a b : Path} : a.text = b.text ↔ a = b := by
    cases a
    cases b
    simp
  obtain ⟨source, network, analysis, extractor, logging⟩ := s
  obtain ⟨source', network', analysis', extractor', logging'⟩ := s'
  cases source
  cases source'
  cases network
  cases network'
  cases analysis
  cases analysis'
  cases extractor
  cases extractor'
  cases logging
  cases logging'
  simpa only [sections, sectionNames, fieldNames, sourceNames, networkNames, analysisNames, extractorNames, loggingNames,
    values, List.zip_cons_cons, List.zip_nil_left, List.map_cons, List.map_nil, List.cons.injEq, Prod.mk.injEq, true_and,
    and_true, Json.string.injEq, nat_inj, strings_inj, attempts, command, path, Settings.mk.injEq, SourceSettings.mk.injEq,
    NetworkSettings.mk.injEq, AnalysisSettings.mk.injEq, ExtractorSettings.mk.injEq, LoggingSettings.mk.injEq] using same

end Settings

namespace Override

def key : Override → SettingKey
  | .source => ("source", "kind")
  | .repositoryUrl => ("source", "repository_url")
  | .usageUrl => ("source", "usage_url")
  | .graphDirectory => ("source", "local_dataset_dir")
  | .repositoryRate => ("network", "repository_qps")
  | .usageRate => ("network", "scrape_qps")
  | .backoff => ("network", "retry_backoff_secs")
  | .datasetPath => ("analysis", "dataset_path")
  | .workers => ("analysis", "diff_concurrency")
  | .extractor => ("extractor", "kind")
  | .extractorCommand => ("extractor", "command")
  | .cacheDirectory => ("extractor", "cache_dir")
  | .logLevel => ("logging", "level")

/-- What a variable sets its setting to; nothing if it is for a number and cannot be read as one. -/
def json? (o : Override) (value : String) : Option Json :=
  match o with
  | .repositoryRate | .usageRate => (number? 32 value).map .nat
  | .backoff | .workers => (number? 64 value).map .nat
  | _ => some (.string value)

theorem sections_apply (o : Override) (value : String) (s : Settings) : (o.apply value s).sections =
    SettingSections.change (fun key old => if key = o.key then (o.json? value).getD old else old) s.sections := by
  cases o <;>
  · simp [apply, key, json?, SettingSections.change, Settings.sections, Settings.sectionNames, Settings.fieldNames,
      Settings.sourceNames, Settings.networkNames, Settings.analysisNames, Settings.extractorNames, Settings.loggingNames,
      Settings.values, Settings.optional]

theorem find?_key (o : Override) : all.find? (·.key = o.key) = some o := by
  cases o <;> decide

theorem pairwise_key : all.Pairwise fun o o' => o.key ≠ o'.key := by decide

def setting? (lookup : String → Option String) (key : SettingKey) : Option Json :=
  (all.find? (·.key = key)).bind fun o => (lookup o.variableName).bind o.json?

theorem setting?_key (lookup : String → Option String) (o : Override) :
    setting? lookup o.key = (lookup o.variableName).bind o.json? := by
  rw [setting?, find?_key, Option.bind_some]

theorem setting?_of_ne (lookup : String → Option String) {key : SettingKey} (other : ∀ o : Override, o.key ≠ key) :
    setting? lookup key = none := by
  have none : all.find? (·.key = key) = none := List.find?_eq_none.2 fun o _ => by simpa using other o
  rw [setting?, none, Option.bind_none]

end Override

namespace Settings

variable (env : Environment)

def overrideBy (s : Settings) (o : Override) : Settings :=
  match env.value? o.variableName with
  | some value => o.apply value s
  | none => s

theorem sections_overrideBy (s : Settings) (o : Override) : (s.overrideBy env o).sections = SettingSections.change
    (fun key old => if key = o.key then ((env.value? o.variableName).bind o.json?).getD old else old) s.sections := by
  unfold overrideBy
  cases env.value? o.variableName with
  | none =>
    simp only [Option.bind_none, Option.getD_none, ite_self]
    exact (SettingSections.change_old _).symm
  | some value => exact o.sections_apply value s

theorem sections_foldl_overrideBy {os : List Override} (distinct : os.Pairwise fun o o' => o.key ≠ o'.key) (s : Settings) :
    (os.foldl (overrideBy env) s).sections = SettingSections.change (fun key old =>
      ((os.find? (·.key = key)).bind fun o => (env.value? o.variableName).bind o.json?).getD old) s.sections := by
  induction os generalizing s with
  | nil => exact (SettingSections.change_old _).symm
  | cons o os ih =>
    obtain ⟨first, rest⟩ := List.pairwise_cons.1 distinct
    rw [List.foldl_cons, ih rest, sections_overrideBy, SettingSections.change_change]
    congr
    funext key old
    by_cases here : key = o.key
    · subst here
      have later : os.find? (·.key = o.key) = none :=
        List.find?_eq_none.2 fun o' mem => by simpa using Ne.symm (first o' mem)
      simp [later]
    · simp [here, Ne.symm here]

theorem sections_override (s : Settings) : (s.override env).sections =
    SettingSections.change (fun key old => (Override.setting? env.value? key).getD old) s.sections :=
  sections_foldl_overrideBy env Override.pairwise_key s

theorem override_override (s : Settings) : (s.override env).override env = s.override env := by
  refine sections_inj ?_
  rw [sections_override, sections_override, SettingSections.change_change]
  congr
  funext key old
  cases Override.setting? env.value? key <;> rfl

theorem exists_default (o : Override) : ∃ default, ({} : Settings).value? o.key = some default := by
  cases o <;> exact ⟨_, rfl⟩

end Settings

def Toml.json? : Toml → Option Json
  | .string s => some (.string s)
  | .integer n => if 0 ≤ n then some (.nat n.toNat) else none
  | .array items => (items.mapM Toml.string?).map .strings
  | _ => none

namespace Toml

variable {t : Toml}

def Reads {α : Type} (read : Toml → Option α) (json : α → Json) : Prop :=
  ∀ {t a}, read t = some a → t.json? = some (json a)

theorem reads_string? : Reads string? .string := by
  intro t a read
  cases t <;> simp_all [string?, json?]

theorem reads_nat? (bits : Nat) : Reads (nat? bits) .nat := by
  intro t a read
  cases t with
  | integer n =>
    simp only [nat?, Option.ite_none_right_eq_some] at read
    obtain ⟨⟨positive, -⟩, same⟩ := read
    rw [json?, if_pos positive, Option.some.inj same]
  | _ => cases read

theorem reads_strings? : Reads strings? .strings := by
  intro t a read
  cases t with
  | array items => exact congrArg (Option.map Json.strings) read
  | _ => cases read

theorem reads_path : Reads readPath (Json.string ·.text) := by
  intro t a read
  obtain ⟨s, text, rfl⟩ := Option.map_eq_some_iff.1 read
  exact reads_string? text

theorem Reads.optional {α : Type} {read : Toml → Option α} {json : α → Json} (reads : Reads read json) :
    Reads (fun t => (read t).map some) (Settings.optional json) := by
  intro t a given
  obtain ⟨a, there, rfl⟩ := Option.map_eq_some_iff.1 given
  exact reads there

theorem Reads.orDefault {α : Type} {read : Toml → Option α} {json : α → Json} (reads : Reads read json) {d a : α}
    {value : Option Toml} (given : orDefault read d value = some a) : json a = (value.bind json?).getD (json d) := by
  cases value with
  | none =>
    cases given
    rfl
  | some t => rw [Option.bind_some, reads given, Option.getD_some]

def member? (names : List String) (name : String) (t : Toml) : Option Toml :=
  (t.record? names).bind fun values => ((names.zip values).lookup name).join

/-- The values of a record under its names; those that it leaves out are as before. -/
def fill (names : List String) (t : Option Toml) (members : List (String × Json)) : List (String × Json) :=
  members.map fun m => (m.1, ((t.bind (·.member? names m.1)).bind json?).getD m.2)

theorem map_lookup_zip (f : Option Toml → Json → Json) {names : List String} (once : names.Nodup)
    {values : List (Option Toml)} (aligned : values.length = names.length) (defaults : List Json) :
    ((names.zip defaults).map fun m => (m.1, f ((names.zip values).lookup m.1).join m.2)) =
      names.zip (List.zipWith f values defaults) := by
  induction names generalizing values defaults with
  | nil => rfl
  | cons name names ih =>
    obtain ⟨other, rest⟩ := List.nodup_cons.1 once
    cases values with
    | nil => cases aligned
    | cons value values =>
      cases defaults with
      | nil => rfl
      | cons default defaults =>
        simp only [List.zip_cons_cons, List.map_cons, List.zipWith_cons_cons, List.lookup_cons, beq_self_eq_true]
        rw [← ih rest (by simpa using aligned)]
        refine congrArg _ (List.map_congr_left fun m mem => ?_)
        have ne : m.1 ≠ name := fun same => other (same ▸ (List.of_mem_zip mem).1)
        rw [beq_false_of_ne ne]

theorem fill_zip {t : Toml} {names : List String} (once : names.Nodup) {values : List (Option Toml)}
    (record : t.record? names = some values) (aligned : values.length = names.length) (defaults : List Json) :
    fill names (some t) (names.zip defaults) =
      names.zip (List.zipWith (fun value default => (value.bind json?).getD default) values defaults) := by
  rw [← map_lookup_zip _ once aligned]
  simp only [fill, member?, record, Option.bind_some]

theorem fill_none (names : List String) (members : List (String × Json)) : fill names none members = members := by
  simp [fill]

end Toml

open Toml (fill fill_zip reads_string? reads_nat? reads_path reads_strings? Reads)

def SourceSettings.members (s : SourceSettings) : List (String × Json) := Settings.sourceNames.zip
  [.string s.kind, .string s.repositoryUrl, .string s.usageUrl, .string s.graphDirectory.text]

def NetworkSettings.members (s : NetworkSettings) : List (String × Json) := Settings.networkNames.zip
  [.nat s.repositoryRate, .nat s.usageRate, .nat s.backoff, Settings.optional .nat s.maxAttempts, .nat s.timeout,
    .string s.userAgent]

def AnalysisSettings.members (s : AnalysisSettings) : List (String × Json) := Settings.analysisNames.zip
  [.string s.datasetPath.text, .nat s.topCandidates, .nat s.workers, .nat s.focusThreshold]

def ExtractorSettings.members (s : ExtractorSettings) : List (String × Json) := Settings.extractorNames.zip
  [.string s.kind, Settings.optional .string s.command, .strings s.arguments, .string s.cacheDirectory.text]

def LoggingSettings.members (s : LoggingSettings) : List (String × Json) := Settings.loggingNames.zip
  [.string s.level, .string s.format]

section Sections

variable {t : Toml}

theorem SourceSettings.members_ofToml? {s : SourceSettings} (read : ofToml? t = some s) :
    s.members = fill Settings.sourceNames (some t) ({} : SourceSettings).members := by
  simp only [ofToml?, Option.bind_eq_bind, Option.bind_eq_some_iff] at read
  obtain ⟨values, record, read⟩ := read
  split at read
  · simp only [Option.bind_eq_some_iff] at read
    obtain ⟨kind, first, repository, second, usage, third, graph, fourth, same⟩ := read
    cases same
    rw [members, members, fill_zip (by decide) record rfl, Reads.orDefault reads_string? first,
      Reads.orDefault reads_string? second, Reads.orDefault reads_string? third, Reads.orDefault reads_path fourth]
    rfl
  · cases read

theorem NetworkSettings.members_ofToml? {s : NetworkSettings} (read : ofToml? t = some s) :
    s.members = fill Settings.networkNames (some t) ({} : NetworkSettings).members := by
  simp only [ofToml?, Option.bind_eq_bind, Option.bind_eq_some_iff] at read
  obtain ⟨values, record, read⟩ := read
  split at read
  · simp only [Option.bind_eq_some_iff] at read
    obtain ⟨repository, first, usage, second, backoff, third, attempts, fourth, timeout, fifth, agent, sixth, same⟩ := read
    cases same
    rw [members, members, fill_zip (by decide) record rfl, Reads.orDefault (reads_nat? 32) first,
      Reads.orDefault (reads_nat? 32) second, Reads.orDefault (reads_nat? 64) third,
      Reads.orDefault (Reads.optional (reads_nat? 32)) fourth, Reads.orDefault (reads_nat? 64) fifth,
      Reads.orDefault reads_string? sixth]
    rfl
  · cases read

theorem AnalysisSettings.members_ofToml? {s : AnalysisSettings} (read : ofToml? t = some s) :
    s.members = fill Settings.analysisNames (some t) ({} : AnalysisSettings).members := by
  simp only [ofToml?, Option.bind_eq_bind, Option.bind_eq_some_iff] at read
  obtain ⟨values, record, read⟩ := read
  split at read
  · simp only [Option.bind_eq_some_iff] at read
    obtain ⟨path, first, top, second, workers, third, threshold, fourth, same⟩ := read
    cases same
    rw [members, members, fill_zip (by decide) record rfl, Reads.orDefault reads_path first,
      Reads.orDefault (reads_nat? 64) second, Reads.orDefault (reads_nat? 64) third,
      Reads.orDefault (reads_nat? 64) fourth]
    rfl
  · cases read

theorem ExtractorSettings.members_ofToml? {s : ExtractorSettings} (read : ofToml? t = some s) :
    s.members = fill Settings.extractorNames (some t) ({} : ExtractorSettings).members := by
  simp only [ofToml?, Option.bind_eq_bind, Option.bind_eq_some_iff] at read
  obtain ⟨values, record, read⟩ := read
  split at read
  · simp only [Option.bind_eq_some_iff] at read
    obtain ⟨kind, first, command, second, arguments, third, cache, fourth, same⟩ := read
    cases same
    rw [members, members, fill_zip (by decide) record rfl, Reads.orDefault reads_string? first,
      Reads.orDefault (Reads.optional reads_string?) second, Reads.orDefault reads_strings? third,
      Reads.orDefault reads_path fourth]
    rfl
  · cases read

theorem LoggingSettings.members_ofToml? {s : LoggingSettings} (read : ofToml? t = some s) :
    s.members = fill Settings.loggingNames (some t) ({} : LoggingSettings).members := by
  simp only [ofToml?, Option.bind_eq_bind, Option.bind_eq_some_iff] at read
  obtain ⟨values, record, read⟩ := read
  split at read
  · simp only [Option.bind_eq_some_iff] at read
    obtain ⟨level, first, format, second, same⟩ := read
    cases same
    rw [members, members, fill_zip (by decide) record rfl, Reads.orDefault reads_string? first,
      Reads.orDefault reads_string? second]
    rfl
  · cases read

end Sections

theorem Toml.fill_orDefault {α : Type} {read : Toml → Option α} {members : α → List (String × Json)} {names : List String}
    {default : α} (reads : ∀ {t s}, read t = some s → members s = fill names (some t) (members default))
    {part : Option Toml} {s : α} (given : orDefault read default part = some s) :
    members s = fill names part (members default) := by
  cases part with
  | none =>
    cases given
    exact (fill_none names _).symm
  | some t => exact reads given

namespace Settings

def inDocument? (t : Toml) (key : SettingKey) : Option Json :=
  ((t.member? sectionNames key.1).bind fun part =>
    part.member? (((sectionNames.zip fieldNames).lookup key.1).getD []) key.2).bind Toml.json?

theorem sections_ofToml? {t : Toml} {s : Settings} (read : ofToml? t = some s) : s.sections =
    SettingSections.change (fun key default => (inDocument? t key).getD default) ({} : Settings).sections := by
  simp only [ofToml?, Option.bind_eq_bind, Option.bind_eq_some_iff] at read
  obtain ⟨parts, record, read⟩ := read
  split at read
  · next source network analysis extractor logging =>
    simp only [Option.bind_eq_some_iff] at read
    obtain ⟨source', first, network', second, analysis', third, extractor', fourth, logging', fifth, same⟩ := read
    cases same
    have part (name : String) : t.member? sectionNames name =
        ((sectionNames.zip [source, network, analysis, extractor, logging]).lookup name).join := by
      rw [Toml.member?, record, Option.bind_some]
    have whole (s : Settings) : s.sections = [("source", s.source.members), ("network", s.network.members),
        ("analysis", s.analysis.members), ("extractor", s.extractor.members), ("logging", s.logging.members)] := rfl
    rw [whole, whole, Toml.fill_orDefault SourceSettings.members_ofToml? first,
      Toml.fill_orDefault NetworkSettings.members_ofToml? second,
      Toml.fill_orDefault AnalysisSettings.members_ofToml? third,
      Toml.fill_orDefault ExtractorSettings.members_ofToml? fourth,
      Toml.fill_orDefault LoggingSettings.members_ofToml? fifth]
    simp only [SettingSections.change, List.map_cons, List.map_nil, inDocument?, part]
    rfl
  · cases read

theorem member?_table {names : List String} {name : String} (known : name ∈ names) (origin : Toml.Origin)
    (entries : Toml.Entries) : (Toml.table origin entries).member? names name = entries.get? name := by
  change ((names.zip (names.map entries.get?)).lookup name).join = _
  induction names with
  | nil => cases known
  | cons first names ih =>
    rw [List.map_cons, List.zip_cons_cons, List.lookup_cons]
    by_cases here : name = first
    · simp [here]
    · rw [beq_false_of_ne here]
      exact ih ((List.mem_cons.1 known).resolve_left here)

theorem inDocument?_of_table {names : List String} {key : SettingKey} (listed : key.1 ∈ sectionNames)
    (fields : (sectionNames.zip fieldNames).lookup key.1 = some names) (known : key.2 ∈ names)
    {origin origin' : Toml.Origin} {entries part : Toml.Entries} (here : entries.get? key.1 = some (.table origin' part)) :
    inDocument? (.table origin entries) key = (part.get? key.2).bind Toml.json? := by
  rw [inDocument?, member?_table listed, here, fields, Option.bind_some, Option.getD_some, member?_table known]

end Settings
end MigrationMining
