import MigrationMining.Pipeline.Services

/-! What a run asks of its services and what they answer. Noted services do what the services do and keep a trace of
the exchanges; a specification of a computation speaks of its result and its trace, whatever the services answer. -/

namespace MigrationMining

def Exchange.refuses : Exchange → Bool
  | .cancelled answer => answer
  | .save _ _ (.error _) => true
  | _ => false

/-- The exchanges of a run, oldest first. -/
abbrev Trace := List Exchange

namespace Trace

def reports (es : Trace) : DiagnosticLog := es.filterMap fun
  | .report d => some d
  | _ => none

def written (es : Trace) : List (Path × String) := es.filterMap fun
  | .save path text (.ok ()) => some (path, text)
  | _ => none

@[simp] theorem reports_append (es fs : Trace) : reports (es ++ fs) = reports es ++ reports fs := by simp [reports]

@[simp] theorem written_append (es fs : Trace) : written (es ++ fs) = written es ++ written fs := by simp [written]

@[simp] theorem written_saved (path : Path) (text : String) (es : Trace) :
    written (.save path text (.ok ()) :: es) = (path, text) :: written es := rfl

@[simp] theorem written_cancelled (answer : Bool) (es : Trace) : written (.cancelled answer :: es) = written es := rfl

theorem written_flatMap {α : Type} (exchanges : α → Trace) (xs : List α) :
    written (xs.flatMap exchanges) = xs.flatMap fun x => (exchanges x).written := List.filterMap_flatMap ..

theorem Perm.written {es fs : Trace} (h : es.Perm fs) : es.written.Perm fs.written := h.filterMap _

theorem mem_written {es : Trace} {path : Path} {text : String} :
    (path, text) ∈ es.written ↔ Exchange.save path text (.ok ()) ∈ es := by
  rw [written, List.mem_filterMap]
  constructor
  · rintro ⟨e, mem, same⟩
    split at same
    · cases same
      exact mem
    · cases same
  · exact fun mem => ⟨_, mem, rfl⟩

theorem written_eq_nil {es : Trace} (h : ∀ path text answer, Exchange.save path text answer ∉ es) :
    es.written = [] := by
  rw [written, List.filterMap_eq_nil_iff]
  intro e he
  split
  · exact absurd he (h _ _ _)
  · rfl

end Trace

namespace Services

variable {σ α β : Type}

theorem bind_run_eq_iff {m : StateM σ α} {f : α → StateM σ β} {w : σ} {out : β × σ} :
    (m >>= f) w = out ↔ ∃ a v, m w = (a, v) ∧ f a v = out := by
  constructor
  · exact fun h => ⟨(m w).1, (m w).2, rfl, h⟩
  · rintro ⟨a, v, first, rest⟩
    change f (m w).1 (m w).2 = out
    rw [first, rest]

/-- A computation that notes an exchange when it is done. -/
def noting (m : StateM σ α) (e : α → Exchange) : StateM (σ × Trace) α := fun s =>
  ((m s.1).1, ((m s.1).2, s.2 ++ [e (m s.1).1]))

def noted (s : Services σ) : Services (σ × Trace) where
  releases p := noting (s.releases p) (.releases p)
  clients c := noting (s.clients c) (.clients c)
  links p := noting (s.links p) (.links p)
  isListed c := noting (s.isListed c) (.isListed c)
  dependencies c := noting (s.dependencies c) (.dependencies c)
  archive c dir := noting (s.archive c dir) (.archive c dir)
  declarations x := noting (s.declarations x) (.declarations x)
  callGraph x := noting (s.callGraph x) (.callGraph x)
  save path text := noting (s.save path text) (.save path text)
  report d := noting (s.report d) fun _ => .report d
  cancelled := noting s.cancelled .cancelled

/-- A call in one state is answered as the exchange says and leaves the services in another state. -/
def Step (s : Services σ) (w : σ) : Exchange → σ → Prop
  | .releases p found, w' => s.releases p w = (found, w')
  | .clients c found, w' => s.clients c w = (found, w')
  | .links p found, w' => s.links p w = (found, w')
  | .isListed c found, w' => s.isListed c w = (found, w')
  | .dependencies c found, w' => s.dependencies c w = (found, w')
  | .archive c dir found, w' => s.archive c dir w = (found, w')
  | .declarations x found, w' => s.declarations x w = (found, w')
  | .callGraph x found, w' => s.callGraph x w = (found, w')
  | .save path text done, w' => s.save path text w = (done, w')
  | .report d, w' => s.report d w = ((), w')
  | .cancelled found, w' => s.cancelled w = (found, w')

/-- Calls one after the other, each in the state that the one before leaves. -/
inductive Steps (s : Services σ) : σ → Trace → σ → Prop where
  | nil (w : σ) : Steps s w [] w
  | cons {w v w' : σ} {e : Exchange} {es : Trace} (first : s.Step w e v) (rest : Steps s v es w') :
      Steps s w (e :: es) w'

namespace Steps

variable {s : Services σ} {w v w' : σ} {es fs : Trace}

theorem append (first : s.Steps w es v) (rest : s.Steps v fs w') : s.Steps w (es ++ fs) w' := by
  induction first with
  | nil => exact rest
  | cons step _ ih => exact .cons step (ih rest)

theorem exists_of_append (h : s.Steps w (es ++ fs) w') : ∃ v, s.Steps w es v ∧ s.Steps v fs w' := by
  induction es generalizing w with
  | nil => exact ⟨w, .nil w, h⟩
  | cons e es ih =>
    cases h with
    | cons step later =>
      obtain ⟨v, first, rest⟩ := ih later
      exact ⟨v, .cons step first, rest⟩

theorem step_of_mem (h : s.Steps w es w') {e : Exchange} (mem : e ∈ es) : ∃ u u', s.Step u e u' := by
  induction h with
  | nil => cases mem
  | cons first _ ih =>
    rcases List.mem_cons.1 mem with rfl | later
    · exact ⟨_, _, first⟩
    · exact ih later

theorem keeps {I : σ → Prop} (h : s.Steps w es w') (step : ∀ e ∈ es, ∀ u u', s.Step u e u' → I u → I u') (start : I w) :
    I w' := by
  induction h with
  | nil => exact start
  | cons first _ ih =>
    obtain ⟨here, later⟩ := List.forall_mem_cons.1 step
    exact ih later (here _ _ first start)

end Steps

/-- With noted services `m'` does what `m` does with the services themselves, and `P` holds of its result and of the
exchanges it adds to the trace. -/
def Notes (m' : StateM (σ × Trace) α) (m : StateM σ α) (P : α → Trace → Prop) : Prop :=
  ∀ w t, ∃ es, m' (w, t) = ((m w).1, ((m w).2, t ++ es)) ∧ P (m w).1 es

/-- As `Notes`, and the exchanges are the calls that lead from the state before to the state after, whatever was noted
before. -/
def Traced (s : Services σ) (m' : StateM (σ × Trace) α) (m : StateM σ α) (P : α → Trace → Prop) : Prop :=
  ∀ w, ∃ es, (∀ t, m' (w, t) = ((m w).1, ((m w).2, t ++ es))) ∧ P (m w).1 es ∧ s.Steps w es (m w).2

namespace Traced

variable {s : Services σ} {m : StateM σ α} {m' : StateM (σ × Trace) α} {f : α → StateM σ β}
  {f' : α → StateM (σ × Trace) β}

theorem notes {P : α → Trace → Prop} (h : Traced s m' m P) : Notes m' m P := by
  intro w t
  obtain ⟨es, run, hp, -⟩ := h w
  exact ⟨es, run t, hp⟩

theorem of_noted {P : α → Trace → Prop} (h : Traced s m' m P) {w v : σ} {a : α} {es : Trace}
    (noted : m' (w, []) = (a, (v, es))) : m w = (a, v) ∧ P a es ∧ s.Steps w es v := by
  obtain ⟨fs, run, hp, steps⟩ := h w
  have same := (run []).symm.trans noted
  rw [List.nil_append, Prod.mk.injEq, Prod.mk.injEq] at same
  obtain ⟨rfl, rfl, rfl⟩ := same
  exact ⟨rfl, hp, steps⟩

theorem history {P : α → Trace → Prop} (h : Traced s m' m P) :
    Traced s m' m fun a es => ∃ w v, m' (w, []) = (a, (v, es)) := by
  intro w
  obtain ⟨es, run, -, steps⟩ := h w
  exact ⟨es, run, ⟨w, _, run []⟩, steps⟩

theorem pure {P : α → Trace → Prop} {a : α} (h : P a []) :
    Traced s (Pure.pure a : StateM (σ × Trace) α) (Pure.pure a : StateM σ α) P := by
  refine fun w => ⟨[], fun t => ?_, h, .nil w⟩
  rw [List.append_nil]
  rfl

theorem mono {P Q : α → Trace → Prop} (hm : Traced s m' m P) (h : ∀ a es, P a es → Q a es) : Traced s m' m Q := by
  intro w
  obtain ⟨es, run, hp, steps⟩ := hm w
  exact ⟨es, run, h _ _ hp, steps⟩

theorem bind {P : α → Trace → Prop} {Q : β → Trace → Prop} (hm : Traced s m' m P)
    (hf : ∀ a es, P a es → Traced s (f' a) (f a) fun b fs => Q b (es ++ fs)) :
    Traced s (m' >>= f') (m >>= f) Q := by
  intro w
  obtain ⟨es, first, hp, steps⟩ := hm w
  obtain ⟨fs, second, hq, later⟩ := hf _ es hp (m w).2
  refine ⟨es ++ fs, fun t => ?_, hq, steps.append later⟩
  change f' (m' (w, t)).1 (m' (w, t)).2 = _
  rw [first, second, List.append_assoc]
  rfl

theorem noting (m : StateM σ α) (e : α → Exchange) (step : ∀ w, s.Step w (e (m w).1) (m w).2) :
    Traced s (noting m e) m fun a es => es = [e a] :=
  fun w => ⟨_, fun _ => rfl, rfl, .cons (step w) (.nil _)⟩

theorem call {e : α → Exchange} {Q : β → Trace → Prop}
    (hf : ∀ a, Traced s (f' a) (f a) fun b fs => Q b (e a :: fs))
    (step : ∀ w, s.Step w (e (m w).1) (m w).2 := by exact fun _ => rfl) :
    Traced s (Services.noting m e >>= f') (m >>= f) Q := by
  refine (noting m e step).bind fun a es h => ?_
  subst h
  exact hf a

theorem report {d : Diagnostic} {f : Unit → StateM σ β} {f' : Unit → StateM (σ × Trace) β}
    {Q : β → Trace → Prop} (hf : Traced s (f' ()) (f ()) fun b fs => Q b (.report d :: fs)) :
    Traced s (s.noted.report d >>= f') (s.report d >>= f) Q :=
  call (e := fun _ => .report d) fun _ => hf

end Traced
end Services
end MigrationMining
