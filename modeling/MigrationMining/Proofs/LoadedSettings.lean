import MigrationMining.Proofs.FileText
import MigrationMining.Proofs.SettingValues
import MigrationMining.Proofs.VariableFiles
import MigrationMining.Settings.Load
import MigrationMining.Toml.Reader

/-! Settings that were loaded: each has the value of its variable, or else the one in the file of settings, or else its
default. -/

namespace MigrationMining.Settings

variable {r : Readers} {s : Surroundings} {asked file : Option Path} {settings : Settings}

/-- The file of variables that is read: if there is something of its name in the working directory, the first file of that name
there or in the directories above, and else the one in the home directory. -/
def variableFile? (s : Surroundings) : Option Path :=
  if s.files.exists? ⟨".env"⟩ then (s.upwards ".env").find? s.files.isFile
  else (s.home.map (· / ".depshift.env")).filter s.files.exists?

theorem variableFile?_of_isFile (here : s.files.isFile ⟨".env"⟩) : variableFile? s = some ⟨".env"⟩ := by
  have exists_here : s.files.exists? ⟨".env"⟩ := by
    unfold FileStore.isFile at here
    unfold FileStore.exists?
    split at here
    · next found =>
      rw [found]
      rfl
    · cases here
  have own : s.upwards ".env" = ⟨".env"⟩ :: (s.upwards ".env").tail := by
    simp [Surroundings.upwards, List.range_succ_eq_map]
  rw [variableFile?, if_pos exists_here, own, List.find?_cons, here]

theorem variableFile?_of_missing (gone : s.files.exists? ⟨".env"⟩ = false) :
    variableFile? s = (s.home.map (· / ".depshift.env")).filter s.files.exists? := by
  rw [variableFile?, gone, if_neg Bool.false_ne_true]

/-- The files of settings, of which the first that exists is read if none is asked for. -/
def settingFiles (s : Surroundings) : List Path :=
  ⟨".depshift.toml"⟩ :: (s.home.map (· / ".depshift" / "config.toml")).toList

theorem find?_toList {α : Type} (p : α → Bool) (a : Option α) : a.toList.find? p = a.filter p := by
  cases a with
  | none => rfl
  | some a => cases here : p a <;> simp [Option.filter, here]

theorem eq_of_file? (chosen : file? s asked = .ok file) : file = asked.or ((settingFiles s).find? s.files.exists?) := by
  cases asked with
  | some path =>
    simp only [file?] at chosen
    split at chosen
    · exact (Except.ok.inj chosen).symm
    · cases chosen
  | none =>
    rw [Option.none_or, settingFiles, List.find?_cons, find?_toList]
    simp only [file?] at chosen
    split at chosen
    · next here =>
      rw [here]
      exact (Except.ok.inj chosen).symm
    · next missing =>
      rw [Bool.eq_false_iff.2 missing]
      exact (Except.ok.inj chosen).symm

def fileVariables (r : VariableReader) (s : Surroundings) : Environment :=
  match variableFile? s with
  | none => []
  | some file =>
    match s.files.readBytes file with
    | .ok content => r.entries s.env content
    | .error _ => []

/-- The value of a variable: the one in the environment, or else the one that the file of variables sets it to first. -/
def variableValue? (r : VariableReader) (s : Surroundings) (name : String) : Option String :=
  (s.env.value? name).or ((fileVariables r s).value? name)

theorem value?_allVariables {r : VariableReader} (documented : r.IsDocumented) (s : Surroundings) :
    (allVariables r s).value? = variableValue? r s := by
  have unset (name : String) : Environment.value? [] name = none := rfl
  have from_path (file : Path) (name : String) : (r.fromPath s file).value? name = (s.env.value? name).or
      (Environment.value? (match s.files.readBytes file with
        | .ok content => r.entries s.env content
        | .error _ => []) name) := by
    cases held : s.files.readBytes file with
    | ok content => exact documented.read held name
    | error e => rw [documented.unread held, unset, Option.or_none]
  funext name
  rw [allVariables, variableValue?, fileVariables, variableFile?]
  split
  · cases there : (s.upwards ".env").find? s.files.isFile with
    | none => rw [documented.missing there, unset, Option.or_none]
    | some file => rw [documented.found there, from_path]
  · cases (s.home.map (· / ".depshift.env")).filter s.files.exists? with
    | none => rw [unset, Option.or_none]
    | some file => exact from_path file name

inductive Holds (read : String → Option Toml.Entries) (fs : FileStore) : Option Path → Option Toml → Prop where
  | nothing : Holds read fs none none
  | document {path : Path} {text : String} {entries : Toml.Entries} (held : fs.readText path = .ok text)
      (parsed : read text = some entries) : Holds read fs (some path) (some (.table .header entries))

theorem Holds.unique {read : String → Option Toml.Entries} {fs : FileStore} {document document' : Option Toml}
    (holds : Holds read fs file document) (holds' : Holds read fs file document') : document = document' := by
  cases holds with
  | nothing =>
    cases holds'
    rfl
  | document read parsed =>
    cases holds' with
    | document read' parsed' =>
      rw [read] at read'
      cases read'
      rw [parsed] at parsed'
      cases parsed'
      rfl

/-- The value of a setting before variables are put over it: the one in the document, or else the default. -/
def stored (document : Option Toml) (key : SettingKey) (default : Json) : Json :=
  (document.bind (inDocument? · key)).getD default

def readBase (read : String → Option Toml.Entries) (fs : FileStore) : Option Path → Except SettingsFailure Settings
  | some path => readFile read fs path
  | none => .ok {}

theorem sections_readBase {document : String → Option Toml.Entries} {fs : FileStore}
    (read : readBase document fs file = .ok settings) : ∃ found, Holds document fs file found ∧
      settings.sections = SettingSections.change (stored found) ({} : Settings).sections := by
  cases file with
  | none =>
    cases read
    exact ⟨none, .nothing, (SettingSections.change_old _).symm⟩
  | some path =>
    simp only [readBase, readFile] at read
    split at read
    · cases read
    · next text held =>
      split at read
      · next parsed =>
        cases read
        obtain ⟨entries, reads, ofToml⟩ := Option.bind_eq_some_iff.1 parsed
        exact ⟨_, .document held reads, sections_ofToml? ofToml⟩
      · cases read

theorem exists_base_of_load (loaded : load r s asked = .ok (settings, file)) : file? s asked = .ok file ∧
    ∃ base, readBase r.ofDocument s.files file = .ok base ∧ settings = base.override (allVariables r.ofVariables s) := by
  obtain ⟨chosen, first, loaded⟩ := bind_eq_ok_iff.1 loaded
  cases chosen with
  | some path =>
    obtain ⟨base, read, rest⟩ := bind_eq_ok_iff.1 loaded
    dsimp only at rest
    split at rest
    · cases rest
    · cases rest
      exact ⟨first, base, read, rfl⟩
  | none =>
    obtain ⟨base, read, rest⟩ := bind_eq_ok_iff.1 loaded
    cases read
    dsimp only at rest
    split at rest
    · cases rest
    · cases rest
      exact ⟨first, {}, rfl, rfl⟩

theorem sections_load (documented : r.ofVariables.IsDocumented) (loaded : load r s asked = .ok (settings, file)) :
    file? s asked = .ok file ∧ ∃ document, Holds r.ofDocument s.files file document ∧
      settings.sections = SettingSections.change (fun key default =>
        (Override.setting? (variableValue? r.ofVariables s) key).getD (stored document key default))
        ({} : Settings).sections := by
  obtain ⟨chosen, base, read, rfl⟩ := exists_base_of_load loaded
  obtain ⟨document, holds, sections⟩ := sections_readBase read
  refine ⟨chosen, document, holds, ?_⟩
  rw [sections_override, value?_allVariables documented, sections, SettingSections.change_change]

section Layers

/-- A file of settings, a file of variables, and variables in the environment; two of these are to be numbers and are none. -/
def layered : Surroundings where
  files := { nodes := [
    ([".env"], .file "DEPSHIFT_SOURCE=local\nDEPSHIFT_SCRAPE_QPS=2\nDEPSHIFT_RETRY_BACKOFF_SECS=soon\n".toUTF8 0),
    ([".depshift.toml"], .file "[network]\nretry_backoff_secs = 7\ntimeout_secs = 9\n".toUTF8 0)] }
  env := [("DEPSHIFT_SOURCE", "remote"), ("DEPSHIFT_DIFF_CONCURRENCY", "many")]
  home := some ⟨"home"⟩

def layeredSettings : Settings := { network := { usageRate := 2, backoff := 7, timeout := 9 } }

def plainReaders : Readers := ⟨Dotenv.reader, Toml.read⟩

end Layers

end MigrationMining.Settings
