import MigrationMining.Proofs.Ranking
import MigrationMining.Proofs.RecordedLinks
import Mathlib.Data.List.Perm.Subperm

/-! What the usage matrix and the candidates say about the links they are built from. -/

namespace MigrationMining

namespace Project

variable {ps qs : List Project}

theorem nodup_of_ascending (ascending : ps.Pairwise (compare · · = .lt)) : ps.Nodup := by
  refine ascending.imp fun {p q} lt => ?_
  rintro rfl
  simp at lt

theorem eq_of_ascending (first : ps.Pairwise (compare · · = .lt)) (second : qs.Pairwise (compare · · = .lt))
    (same : ∀ p, p ∈ ps ↔ p ∈ qs) : ps = qs := by
  refine List.Perm.eq_of_pairwise (fun p q _ _ lt gt => ?_) first second ?_
  · exact absurd gt (Std.OrientedCmp.not_lt_of_lt lt)
  · exact (List.perm_ext_iff_of_nodup (nodup_of_ascending first) (nodup_of_ascending second)).2 same

end Project

namespace UsageMatrix

section Build

variable {versions : List Coordinate} {links : List Link} {m : UsageMatrix}

theorem eq_of_build (built : build versions links = .ok m) :
    m = {
      versions
      clients := Std.ExtTreeSet.ofList (links.map (·.client.project)) compare
      cells := links.foldl (fun cells link => cells.insert (Cell.ofLink link) link.client.version) ∅ } := by
  unfold build at built
  split at built
  · cases built
  · exact (Except.ok.inj built).symm

theorem get?_of_build (built : build versions links = .ok m) (library : Coordinate) (client : Project) :
    m.get? library client = (lastClient? links library client).map (·.version) :=
  (records_of_build built).get?_eq library client

theorem mem_usersOf_of_build (built : build versions links = .ok m) {library : Coordinate} {client : Project} :
    client ∈ m.usersOf library ↔ (lastClient? links library client).isSome := by
  simp only [usersOf, List.mem_filter, get?_of_build built, Option.isSome_map, and_iff_right_iff_imp]
  intro h
  obtain ⟨link, hl, _, hc⟩ := lastClient?_isSome.1 h
  rw [Std.ExtTreeSet.mem_toList]
  exact ((records_of_build built).mem_clients client).2 ⟨link, hl, hc⟩

end Build

end UsageMatrix

namespace Candidate

variable {versions : List Coordinate} {links : List Link} {m : UsageMatrix}

theorem move?_of_build (built : UsageMatrix.build versions links = .ok m) {older newer : Coordinate}
    {client : Project} {a b : Coordinate} :
    move? m older newer client = some (a, b) ↔
      lastClient? links older client = some a ∧ lastClient? links newer client = some b ∧ a.version ≠ b.version := by
  have pinned : ∀ {library c}, lastClient? links library client = some c → client.release c.version = c := by
    intro library c h
    rw [← project_of_lastClient? h]
    rfl
  unfold move?
  rw [UsageMatrix.get?_of_build built, UsageMatrix.get?_of_build built]
  cases ho : lastClient? links older client with
  | none => simp
  | some x =>
    cases hn : lastClient? links newer client with
    | none => simp
    | some y =>
      simp only [Option.map_some, pinned ho, pinned hn, Option.some.injEq, ite_not, Option.ite_none_left_eq_some,
        Prod.mk.injEq]
      constructor
      · rintro ⟨differ, rfl, rfl⟩
        exact ⟨rfl, rfl, differ⟩
      · rintro ⟨rfl, rfl, differ⟩
        exact ⟨differ, rfl, rfl⟩

/-- The candidate of two releases lists, in ascending order, the projects of `clients` whose last links to the two
releases come from different versions, at those versions. -/
structure Reflects (links : List Link) (clients : ProjectSet) (older newer : Coordinate) (c : Candidate) : Prop where
  releases : c.older = older ∧ c.newer = newer
  moved : ∀ p, p ∈ c.clientsAtOlder.map (·.project) ↔ p ∈ clients ∧
    ∃ a b, lastClient? links older p = some a ∧ lastClient? links newer p = some b ∧ a.version ≠ b.version
  ascending : (c.clientsAtOlder.map (·.project)).Pairwise (compare · · = .lt)
  aligned : c.clientsAtNewer.map (·.project) = c.clientsAtOlder.map (·.project)
  atOlder : ∀ a ∈ c.clientsAtOlder, lastClient? links older a.project = some a
  atNewer : ∀ b ∈ c.clientsAtNewer, lastClient? links newer b.project = some b
  counted : c.migrated = c.clientsAtOlder.length ∧ c.migrated = c.clientsAtNewer.length

theorem map_filterMap_eq_filter {α β : Type} {f : α → Option β} {g : β → α} (h : ∀ a b, f a = some b → g b = a)
    (xs : List α) : (xs.filterMap f).map g = xs.filter fun a => (f a).isSome := by
  induction xs with
  | nil => rfl
  | cons x xs ih =>
    cases hx : f x with
    | none => simp [hx, ih]
    | some b => simp [hx, ih, h x b hx]

section Between

variable (built : UsageMatrix.build versions links = .ok m) (clients : ProjectSet) (older newer : Coordinate)

include built

theorem between_reflects : Reflects links clients older newer (between m clients older newer) := by
  let moves := clients.toList.filterMap (move? m older newer)
  have found : ∀ {ab}, ab ∈ moves → ∃ p, p ∈ clients ∧ move? m older newer p = some ab := by
    intro ab h
    obtain ⟨p, hp, hm⟩ := List.mem_filterMap.1 h
    exact ⟨p, Std.ExtTreeSet.mem_toList.1 hp, hm⟩
  have at_older : (moves.map (·.1)).map (·.project) =
      clients.toList.filter fun p => (move? m older newer p).isSome := by
    rw [List.map_map]
    refine map_filterMap_eq_filter (fun p ab h => ?_) _
    exact project_of_lastClient? ((move?_of_build built).1 h).1
  have at_newer : (moves.map (·.2)).map (·.project) =
      clients.toList.filter fun p => (move? m older newer p).isSome := by
    rw [List.map_map]
    refine map_filterMap_eq_filter (fun p ab h => ?_) _
    exact project_of_lastClient? ((move?_of_build built).1 h).2.1
  refine ⟨⟨rfl, rfl⟩, fun p => ?_, ?_, at_newer.trans at_older.symm, ?_, ?_, ?_⟩
  · change p ∈ (moves.map (·.1)).map (·.project) ↔ _
    rw [at_older, List.mem_filter, Std.ExtTreeSet.mem_toList, Option.isSome_iff_exists]
    apply and_congr_right
    intro _
    simp [move?_of_build built]
  · change ((moves.map (·.1)).map (·.project)).Pairwise _
    rw [at_older]
    exact Std.ExtTreeSet.ordered_toList.filter _
  · intro a ha
    obtain ⟨ab, hab, rfl⟩ := List.mem_map.1 ha
    obtain ⟨p, _, hm⟩ := found hab
    have h := ((move?_of_build built).1 hm).1
    rwa [project_of_lastClient? h]
  · intro b hb
    obtain ⟨ab, hab, rfl⟩ := List.mem_map.1 hb
    obtain ⟨p, _, hm⟩ := found hab
    have h := ((move?_of_build built).1 hm).2.1
    rwa [project_of_lastClient? h]
  · simp [between]

end Between

theorem Reflects.migrated_le (built : UsageMatrix.build versions links = .ok m) {clients : ProjectSet}
    {older newer : Coordinate} {c : Candidate} (h : Reflects links clients older newer c) :
    c.migrated ≤ min (m.usersOf older).length (m.usersOf newer).length := by
  have distinct := Project.nodup_of_ascending h.ascending
  have older_users : c.clientsAtOlder.map (·.project) ⊆ m.usersOf older := by
    intro p hp
    obtain ⟨_, a, b, ha, _⟩ := (h.moved p).1 hp
    simp [UsageMatrix.mem_usersOf_of_build built, ha]
  have newer_users : c.clientsAtOlder.map (·.project) ⊆ m.usersOf newer := by
    intro p hp
    obtain ⟨_, a, b, _, hb, _⟩ := (h.moved p).1 hp
    simp [UsageMatrix.mem_usersOf_of_build built, hb]
  have length : c.migrated = (c.clientsAtOlder.map (·.project)).length := by
    rw [List.length_map, h.counted.1]
  rw [length]
  exact le_min (List.subperm_of_subset distinct older_users).length_le
    (List.subperm_of_subset distinct newer_users).length_le

theorem ranked_candidate_reflects_links (built : UsageMatrix.build versions links = .ok m) (clients : ProjectSet)
    {i j : Nat} (hij : i < j) (hj : j < versions.length) :
    ∃ c ∈ rankUntil (fun _ => false) versions m clients,
      Reflects links clients versions[i] versions[j] c ∧
      c.migrated ≤ min (m.usersOf versions[i]).length (m.usersOf versions[j]).length ∧
      ∀ seen, ∀ d ∈ rankUntil seen versions m clients, d.older = versions[i] → d.newer = versions[j] → d = c := by
  have reflects := between_reflects built clients versions[i] versions[j]
  refine ⟨_, ?_, reflects, reflects.migrated_le built, ?_⟩
  · rw [rankUntil_eq versions m clients (.never _), byMigrated, List.mem_mergeSort, ← length_positionPairs,
      List.take_length]
    exact List.mem_map.2 ⟨(⟨i, hij.trans hj⟩, ⟨j, hj⟩), mem_positionPairs.2 hij, rfl⟩
  · intro seen d hd ho hn
    simp only [rankUntil, byMigrated, List.mem_mergeSort, List.mem_map] at hd
    obtain ⟨⟨⟨v, w⟩, k⟩, _, rfl⟩ := hd
    rw [← ho, ← hn]
    rfl

theorem ranked_candidate_of_repeated_link :
    let versions : List Coordinate := [⟨"g", "a", "1"⟩, ⟨"g", "a", "2"⟩]
    let links : List Link := [⟨⟨"g", "a", "1"⟩, ⟨"x", "c", "1"⟩⟩, ⟨⟨"g", "a", "2"⟩, ⟨"x", "c", "1"⟩⟩,
      ⟨⟨"g", "a", "2"⟩, ⟨"x", "c", "2"⟩⟩]
    let clients : ProjectSet := Std.ExtTreeSet.ofList [⟨"x", "c"⟩, ⟨"y", "d"⟩] compare
    ∃ m, UsageMatrix.build versions links = .ok m ∧ 0 < 1 ∧ 1 < versions.length ∧
      ∃ c ∈ rankUntil (fun _ => false) versions m clients,
        Reflects links clients ⟨"g", "a", "1"⟩ ⟨"g", "a", "2"⟩ c ∧
        c.migrated ≤ min (m.usersOf ⟨"g", "a", "1"⟩).length (m.usersOf ⟨"g", "a", "2"⟩).length ∧
        ∀ seen, ∀ d ∈ rankUntil seen versions m clients,
          d.older = ⟨"g", "a", "1"⟩ → d.newer = ⟨"g", "a", "2"⟩ → d = c := by
  intro versions links clients
  obtain ⟨m, built⟩ : ∃ m, UsageMatrix.build versions links = .ok m := ⟨_, rfl⟩
  have later : 1 < versions.length := by decide
  exact ⟨m, built, by decide, later, ranked_candidate_reflects_links built clients (i := 0) (j := 1) (by decide) later⟩

end Candidate

end MigrationMining
