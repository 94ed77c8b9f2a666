import MigrationMining.Proofs.PairAttempt

/-! The answers of the services determine the diff of a pair: services that give the answers of a way to end go this
way, so that there are no other ways to end and none of them is in vain. -/

namespace MigrationMining
open Services

variable {σ : Type} {s : Services σ} {w w' : σ} {es : Trace}

theorem Services.Steps.cons_iff {e : Exchange} : s.Steps w (e :: es) w' ↔ ∃ v, s.Step w e v ∧ s.Steps v es w' := by
  constructor
  · rintro (_ | ⟨first, rest⟩)
    exact ⟨_, first, rest⟩
  · rintro ⟨v, first, rest⟩
    exact .cons first rest

theorem Services.Steps.nil_iff : s.Steps w [] w' ↔ w = w' := by
  constructor
  · rintro ⟨⟩
    rfl
  · rintro rfl
    exact .nil w

namespace PairArchives

variable {p : PairArchives}

theorem members_of_dropped {library : Coordinate} {why : Dropped}
    (steps : s.Steps w (why.exchanges p.libraries library ++ [.report (why.diagnostic library)]) w') :
    p.members s library w = (none, w') := by
  cases why with
  | noArchive =>
    obtain ⟨v, archive, steps⟩ := Steps.cons_iff.1 steps
    obtain ⟨_, report, steps⟩ := Steps.cons_iff.1 steps
    cases Steps.nil_iff.1 steps
    exact bind_run_eq_iff.2 ⟨_, v, archive, bind_run_eq_iff.2 ⟨(), w', report, rfl⟩⟩
  | noDeclarations path e =>
    obtain ⟨v, archive, steps⟩ := Steps.cons_iff.1 steps
    obtain ⟨u, declared, steps⟩ := Steps.cons_iff.1 steps
    obtain ⟨_, report, steps⟩ := Steps.cons_iff.1 steps
    cases Steps.nil_iff.1 steps
    exact bind_run_eq_iff.2 ⟨_, v, archive, bind_run_eq_iff.2 ⟨_, u, declared, bind_run_eq_iff.2 ⟨(), w', report, rfl⟩⟩⟩

theorem members_of_found {library : Coordinate} {path : Path} {members : Namespace}
    (steps : s.Steps w (p.membersFound library path members) w') : p.members s library w = (some members, w') := by
  obtain ⟨v, archive, steps⟩ := Steps.cons_iff.1 steps
  obtain ⟨_, declared, steps⟩ := Steps.cons_iff.1 steps
  cases Steps.nil_iff.1 steps
  exact bind_run_eq_iff.2 ⟨_, v, archive, bind_run_eq_iff.2 ⟨_, w', declared, rfl⟩⟩

theorem diff_of_noGraph {affected : AffectedLibrary} {members : Namespace} {e : Failure} (noGraph : p.NoGraph e es)
    (steps : s.Steps w es w') : p.diff s.callGraph affected members w = (.error e, w') := by
  cases noGraph with
  | old e =>
    obtain ⟨_, old, steps⟩ := Steps.cons_iff.1 steps
    cases Steps.nil_iff.1 steps
    exact bind_run_eq_iff.2 ⟨_, w', bind_run_eq_iff.2 ⟨_, w', old, rfl⟩, rfl⟩
  | new g e =>
    obtain ⟨v, old, steps⟩ := Steps.cons_iff.1 steps
    obtain ⟨_, new, steps⟩ := Steps.cons_iff.1 steps
    cases Steps.nil_iff.1 steps
    refine bind_run_eq_iff.2 ⟨_, v, bind_run_eq_iff.2 ⟨_, v, old, rfl⟩, ?_⟩
    exact bind_run_eq_iff.2 ⟨_, w', bind_run_eq_iff.2 ⟨_, w', new, rfl⟩, rfl⟩

theorem diff_of_callGraphs {affected : AffectedLibrary} {members : Namespace} {old new : CallGraph}
    (steps : s.Steps w [.callGraph p.old (.ok old), .callGraph p.new (.ok new)] w') :
    p.diff s.callGraph affected members w = (.ok (Adaptation.diff (p.comparison affected) old new members), w') := by
  obtain ⟨v, first, steps⟩ := Steps.cons_iff.1 steps
  obtain ⟨_, second, steps⟩ := Steps.cons_iff.1 steps
  cases Steps.nil_iff.1 steps
  refine bind_run_eq_iff.2 ⟨_, v, bind_run_eq_iff.2 ⟨_, v, first, rfl⟩, ?_⟩
  exact bind_run_eq_iff.2 ⟨_, w', bind_run_eq_iff.2 ⟨_, w', second, rfl⟩, rfl⟩

theorem adaptations_of_run {libraries : List AffectedLibrary} {found : Except Interruption (List Adaptation)}
    (run : p.LibrariesRun libraries found es) (steps : s.Steps w es w') :
    p.adaptations s libraries w = (found, w') := by
  induction run generalizing w with
  | halt halts =>
    cases halts with
    | done =>
      cases Steps.nil_iff.1 steps
      rfl
    | cancelled affected rest =>
      obtain ⟨_, cancelled, steps⟩ := Steps.cons_iff.1 steps
      cases Steps.nil_iff.1 steps
      exact bind_run_eq_iff.2 ⟨true, w', cancelled, rfl⟩
    | interrupted affected rest path members noGraph =>
      obtain ⟨v, goesOn, steps⟩ := Steps.cons_iff.1 steps
      obtain ⟨u, looked, steps⟩ := steps.exists_of_append
      refine bind_run_eq_iff.2 ⟨false, v, goesOn, bind_run_eq_iff.2 ⟨_, u, members_of_found looked, ?_⟩⟩
      exact bind_run_eq_iff.2 ⟨_, w', diff_of_noGraph noGraph steps, rfl⟩
  | @next affected finding rest found es later ih =>
    obtain ⟨v, here, others⟩ := steps.exists_of_append
    have later := ih others
    cases finding with
    | dropped why =>
      obtain ⟨u, goesOn, looked⟩ := Steps.cons_iff.1 here
      refine bind_run_eq_iff.2 ⟨false, u, goesOn, bind_run_eq_iff.2 ⟨_, v, members_of_dropped looked, ?_⟩⟩
      refine later.trans ?_
      cases found <;> rfl
    | compared path members old new =>
      obtain ⟨u, goesOn, here⟩ := Steps.cons_iff.1 here
      obtain ⟨x, looked, graphs⟩ := here.exists_of_append
      refine bind_run_eq_iff.2 ⟨false, u, goesOn, bind_run_eq_iff.2 ⟨_, x, members_of_found looked, ?_⟩⟩
      refine bind_run_eq_iff.2 ⟨_, v, diff_of_callGraphs graphs, ?_⟩
      exact bind_run_eq_iff.2 ⟨found, w', later, rfl⟩

end PairArchives

namespace PairReport

variable {directory : Path} {old new : Coordinate} {pair : Coordinate × Coordinate}

theorem run_of_opening {β : Type} {f : List Coordinate → List Coordinate → Option PairArchives → StateM σ β}
    {before after : List Coordinate} {a b : Option Path} {fs : Trace}
    (steps : s.Steps w (opening directory old new before after a b ++ fs) w') :
    ∃ v, s.Steps v fs w' ∧ ∀ out, f before after (a.bind fun x => b.map (archivesAt directory old new x)) v = out →
      (do f (← s.dependencies old) (← s.dependencies new) (← archives s directory old new)) w = out := by
  obtain ⟨x₁, first, steps⟩ := Steps.cons_iff.1 steps
  obtain ⟨x₂, second, steps⟩ := Steps.cons_iff.1 steps
  obtain ⟨x₃, third, steps⟩ := Steps.cons_iff.1 steps
  obtain ⟨v, fourth, steps⟩ := Steps.cons_iff.1 steps
  have found : archives s directory old new x₂ = (a.bind fun x => b.map (archivesAt directory old new x), v) := by
    refine bind_run_eq_iff.2 ⟨a, x₃, third, bind_run_eq_iff.2 ⟨b, v, fourth, ?_⟩⟩
    cases a <;> cases b <;> rfl
  refine ⟨v, steps, fun out rest => ?_⟩
  exact bind_run_eq_iff.2 ⟨_, x₁, first, bind_run_eq_iff.2 ⟨_, x₂, second, bind_run_eq_iff.2 ⟨_, v, found, rest⟩⟩⟩

theorem run_of_ends {result : Except Failure PairReport} (ends : Ends directory old new result es)
    (steps : s.Steps w es w') : run s directory old new w = (result, w') := by
  cases ends with
  | noArchive before after a b missing =>
    obtain ⟨v, steps, goesOn⟩ := run_of_opening steps
    obtain ⟨_, report, steps⟩ := Steps.cons_iff.1 steps
    cases Steps.nil_iff.1 steps
    have none : (a.bind fun x => b.map (archivesAt directory old new x)) = none := by
      rcases missing with rfl | rfl <;> simp
    refine goesOn _ ?_
    rw [none]
    exact bind_run_eq_iff.2 ⟨(), w', report, rfl⟩
  | cancelled before after a b libraries =>
    obtain ⟨v, steps, goesOn⟩ := run_of_opening steps
    exact goesOn _ (bind_run_eq_iff.2 ⟨_, w', PairArchives.adaptations_of_run libraries steps, rfl⟩)
  | noCallGraph before after a b libraries =>
    obtain ⟨v, steps, goesOn⟩ := run_of_opening steps
    obtain ⟨u, looked, steps⟩ := steps.exists_of_append
    obtain ⟨_, report, steps⟩ := Steps.cons_iff.1 steps
    cases Steps.nil_iff.1 steps
    refine goesOn _ (bind_run_eq_iff.2 ⟨_, u, PairArchives.adaptations_of_run libraries looked, ?_⟩)
    exact bind_run_eq_iff.2 ⟨(), w', report, rfl⟩
  | unsaved before after a b e libraries =>
    obtain ⟨v, steps, goesOn⟩ := run_of_opening steps
    obtain ⟨u, looked, steps⟩ := steps.exists_of_append
    obtain ⟨_, save, steps⟩ := Steps.cons_iff.1 steps
    cases Steps.nil_iff.1 steps
    refine goesOn _ (bind_run_eq_iff.2 ⟨_, u, PairArchives.adaptations_of_run libraries looked, ?_⟩)
    exact bind_run_eq_iff.2 ⟨.error e, w', save, rfl⟩
  | saved before after a b libraries =>
    obtain ⟨v, steps, goesOn⟩ := run_of_opening steps
    obtain ⟨u, looked, steps⟩ := steps.exists_of_append
    obtain ⟨_, save, steps⟩ := Steps.cons_iff.1 steps
    cases Steps.nil_iff.1 steps
    refine goesOn _ (bind_run_eq_iff.2 ⟨_, u, PairArchives.adaptations_of_run libraries looked, ?_⟩)
    exact bind_run_eq_iff.2 ⟨.ok (), w', save, rfl⟩

end PairReport
end MigrationMining
