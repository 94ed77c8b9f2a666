import MigrationMining.Settings.Dotenv

/-! Files of variables: which variables are known after one was read. Those of the environment stay, and each other one has
the value that it is first given in the file. A reader is documented to do so, and the plain reader does. -/

namespace MigrationMining

/-- What the documentation of a reader of variables says: variables that are set stay as they are, a file that cannot be read
sets nothing, and a name is looked for in the working directory and in the directories above it in sequence. -/
structure Settings.VariableReader.IsDocumented (r : VariableReader) : Prop where
  read : ∀ {s : Surroundings} {file : Path} {content : ByteArray}, s.files.readBytes file = .ok content → ∀ name,
    (r.fromPath s file).value? name = (s.env.value? name).or ((r.entries s.env content).value? name)
  unread : ∀ {s : Surroundings} {file : Path} {e : FileFailure}, s.files.readBytes file = .error e →
    r.fromPath s file = s.env
  found : ∀ {s : Surroundings} {name : String} {file : Path}, (s.upwards name).find? s.files.isFile = some file →
    r.fromFilename s name = r.fromPath s file
  missing : ∀ {s : Surroundings} {name : String}, (s.upwards name).find? s.files.isFile = none →
    r.fromFilename s name = s.env

namespace Environment

variable {env env' : Environment} {name : String}

theorem value?_append : value? (env ++ env') name = (env.value? name).or (env'.value? name) := by
  simp only [value?, List.find?_append]
  cases env.find? (·.1 = name) <;> rfl

def Agree (env env' : Environment) : Prop := ∀ name, env.value? name = env'.value? name

theorem Agree.append (agree : Agree env env') (rest : Environment) : Agree (env ++ rest) (env' ++ rest) := by
  intro name
  rw [value?_append, value?_append, agree name]

theorem agree_append_of_isSome (set : (env.value? name).isSome) (value : String) :
    Agree (env ++ [(name, value)]) env := by
  intro other
  rw [value?_append]
  by_cases here : name = other
  · subst here
    obtain ⟨known, set⟩ := Option.isSome_iff_exists.1 set
    rw [set, Option.some_or]
  · have none : value? [(name, value)] other = none := by simp [value?, here]
    rw [none, Option.or_none]

end Environment

namespace Dotenv

variable {env env' : Environment}

theorem resolve_congr (agree : env.Agree env') : Scan.resolve env = Scan.resolve env' := by
  funext name
  rw [Scan.resolve, agree, Scan.resolve]

theorem value?_congr (agree : env.Agree env') : value? env = value? env' := by
  have step : Scan.step env = Scan.step env' := by
    funext s c
    unfold Scan.step
    rw [resolve_congr agree]
  have finish : Scan.finish env = Scan.finish env' := by
    funext s
    unfold Scan.finish
    rw [resolve_congr agree]
  funext cs
  rw [value?, step, finish, value?]

theorem line?_congr (agree : env.Agree env') : line? env = line? env' := by
  funext cs
  unfold line?
  rw [value?_congr agree]

theorem assigned_congr (agree : env.Agree env') (ls : List (List Char)) : assigned env ls = assigned env' ls := by
  induction ls generalizing env env' with
  | nil => rfl
  | cons l ls ih =>
    rw [assigned, assigned, line?_congr agree]
    split
    · rfl
    · exact ih agree
    · rw [ih (agree.append _)]

/-- After lines were read a variable has its value in the environment, or else the one that it is set to first. -/
theorem agree_extend (env : Environment) (ls : List (List Char)) : (extend env ls).Agree (env ++ assigned env ls) := by
  induction ls generalizing env with
  | nil =>
    intro name
    rw [assigned, List.append_nil, extend]
  | cons l ls ih =>
    unfold extend assigned
    cases line? env l with
    | none => simp [Environment.Agree]
    | some line =>
      cases line with
      | nothing => exact ih env
      | entry name value =>
        have front : env ++ (name, value) :: assigned (env ++ [(name, value)]) ls =
            (env ++ [(name, value)]) ++ assigned (env ++ [(name, value)]) ls := by simp
        dsimp only
        rw [front]
        split
        · next set =>
          have same := Environment.agree_append_of_isSome set value
          intro other
          rw [ih env other, Environment.value?_append, Environment.value?_append, same other, assigned_congr same]
        · exact ih _

theorem value?_load (env : Environment) (content : ByteArray) (name : String) :
    (load env content).value? name = (env.value? name).or ((assigned env (lines content)).value? name) := by
  rw [load, agree_extend, Environment.value?_append]

theorem isDocumented_reader : reader.IsDocumented where
  read {s file content} held name := by
    change (fromPath s file).value? name = _
    rw [fromPath, held]
    exact value?_load s.env content name
  unread held := by
    simp only [reader, fromPath, held]
  found there := by
    simp only [reader, there]
  missing there := by
    simp only [reader, there]

end Dotenv
end MigrationMining
