import Mathlib.Data.List.Nodup
import MigrationMining.CodeModel.Archives
import MigrationMining.Proofs.CacheEntry

/-! The order of paths, and the archives that are found at a path: each of them once, in that order. -/

namespace MigrationMining

namespace Path

namespace Component

variable {a b c : Component}

theorem le_iff : a.le b ↔ a.rank.1 < b.rank.1 ∨ a.rank.1 = b.rank.1 ∧ (compare a.rank.2 b.rank.2).isLE := by
  simp [le]

theorem eq_of_rank_eq (kind : a.rank.1 = b.rank.1) (name : a.rank.2 = b.rank.2) : a = b := by
  cases a <;> cases b <;> simp_all [rank]

theorem le_total (a b : Component) : a.le b ∨ b.le a := by
  rcases Nat.lt_trichotomy a.rank.1 b.rank.1 with below | same | above
  · exact .inl (le_iff.2 (.inl below))
  · have names : (compare a.rank.2 b.rank.2).isLE ∨ (compare b.rank.2 a.rank.2).isLE := by
      have swapped : compare b.rank.2 a.rank.2 = (compare a.rank.2 b.rank.2).swap := Std.OrientedCmp.eq_swap
      rw [swapped]
      cases compare a.rank.2 b.rank.2 <;> simp
    exact names.imp (fun le => le_iff.2 (.inr ⟨same, le⟩)) fun le => le_iff.2 (.inr ⟨same.symm, le⟩)
  · exact .inr (le_iff.2 (.inl above))

theorem le_trans (first : a.le b) (second : b.le c) : a.le c := by
  rw [le_iff] at *
  rcases first with below | ⟨same, names⟩ <;> rcases second with below' | ⟨same', names'⟩
  · exact .inl (below.trans below')
  · exact .inl (same' ▸ below)
  · exact .inl (same ▸ below')
  · exact .inr ⟨same.trans same', Std.TransCmp.isLE_trans names names'⟩

theorem le_antisymm (first : a.le b) (second : b.le a) : a = b := by
  rw [le_iff] at *
  rcases first with below | ⟨same, names⟩ <;> rcases second with below' | ⟨same', names'⟩
  · omega
  · omega
  · omega
  · exact eq_of_rank_eq same (Std.LawfulEqCmp.eq_of_compare (Std.OrientedCmp.isLE_antisymm names names'))

end Component

theorem componentsLe_total (as bs : List Component) : componentsLe as bs ∨ componentsLe bs as := by
  induction as generalizing bs with
  | nil => exact .inl rfl
  | cons a as ih =>
    cases bs with
    | nil => exact .inr rfl
    | cons b bs =>
      by_cases same : a = b
      · simpa [componentsLe, same] using ih bs
      · simpa [componentsLe, same, Ne.symm same] using a.le_total b

theorem componentsLe_trans {as bs cs : List Component} (first : componentsLe as bs) (second : componentsLe bs cs) :
    componentsLe as cs := by
  induction as generalizing bs cs with
  | nil => rfl
  | cons a as ih =>
    cases bs with
    | nil => cases first
    | cons b bs =>
      cases cs with
      | nil => cases second
      | cons c cs =>
        simp only [componentsLe] at first second ⊢
        by_cases ab : a = b
        · subst ab
          by_cases ac : a = c
          · subst ac
            simp only [if_true] at first second ⊢
            exact ih first second
          · simpa [ac] using second
        · by_cases bc : b = c
          · subst bc
            simpa [ab] using first
          · rw [if_neg ab] at first
            rw [if_neg bc] at second
            have ac : a ≠ c := by
              rintro rfl
              exact ab (Component.le_antisymm first second)
            rw [if_neg ac]
            exact Component.le_trans first second

end Path

structure FileStore.Unambiguous (fs : FileStore) : Prop where
  once : (fs.nodes.map (·.1)).Nodup

namespace Archives
open MigrationMining.Path

variable {fs : FileStore} {root p q : Path} {place target : Place} {names : List String} {name : String}

theorem isEntryName_iff : isEntryName name ↔ PlainName name := by
  simp only [isEntryName, Bool.and_eq_true, Bool.not_eq_true', List.contains_eq_mem, decide_eq_false_iff_not,
    decide_eq_true_eq]
  exact ⟨fun h => ⟨h.1, h.2⟩, fun h => ⟨h.1, h.2⟩⟩

theorem namesBelow?_eq_some_iff : namesBelow? place target = some names ↔
    target = place ++ names ∧ names ≠ [] ∧ ∀ name ∈ names, PlainName name := by
  simp only [namesBelow?, Option.ite_none_right_eq_some, Bool.and_eq_true, List.isPrefixOf_iff_prefix,
    Bool.not_eq_true', List.isEmpty_eq_false_iff, List.all_eq_true, isEntryName_iff, Option.some.injEq]
  constructor
  · rintro ⟨⟨⟨⟨rest, rfl⟩, nonempty⟩, plain⟩, rfl⟩
    rw [List.drop_left] at nonempty plain ⊢
    exact ⟨rfl, nonempty, plain⟩
  · rintro ⟨rfl, nonempty, plain⟩
    rw [List.drop_left]
    exact ⟨⟨⟨List.prefix_append place names, nonempty⟩, plain⟩, rfl⟩

theorem below_concat (root : Path) (names : List String) (name : String) :
    below root (names ++ [name]) = below root names / name := by
  simp [below]

theorem place_below (root : Path) (plain : ∀ name ∈ names, PlainName name) :
    (below root names).place = root.place ++ names := by
  induction names using List.reverseRecOn with
  | nil => simp [below]
  | append_singleton names name ih =>
    obtain ⟨rest, last⟩ := List.forall_mem_append.1 plain
    rw [below_concat, place_div _ (last name (by simp)), ih rest, List.append_assoc]

theorem below_inj {names' : List String} (plain : ∀ name ∈ names, PlainName name)
    (plain' : ∀ name ∈ names', PlainName name) (same : below root names = below root names') : names = names' := by
  have places := congrArg Path.place same
  rwa [place_below root plain, place_below root plain', List.append_cancel_left_eq] at places

theorem mem_filesBelow (found : p ∈ filesBelow fs root) : filesBelow fs root = [p] ∨
    ∃ names, names ≠ [] ∧ (∀ name ∈ names, PlainName name) ∧ p = below root names := by
  unfold filesBelow at *
  split at found
  · obtain ⟨names, mem, rfl⟩ := List.mem_map.1 found
    obtain ⟨file, -, down⟩ := List.mem_filterMap.1 mem
    obtain ⟨-, nonempty, plain⟩ := namesBelow?_eq_some_iff.1 down
    exact .inr ⟨names, nonempty, plain, rfl⟩
  · rw [List.mem_singleton] at found
    exact .inl (by rw [found])
  · cases found

theorem nodup_files (single : fs.Unambiguous) : (fs.files.map (·.1)).Nodup := by
  refine single.once.sublist ?_
  unfold FileStore.files
  induction fs.nodes with
  | nil => simp
  | cons node nodes ih =>
    obtain ⟨place, directory | content⟩ := node
    · exact ih.cons place
    · exact ih.cons_cons place

theorem nodup_filesBelow (single : fs.Unambiguous) (root : Path) : (filesBelow fs root).Nodup := by
  unfold filesBelow
  split
  · next place _ _ =>
    have once : ((fs.files.map (·.1)).filterMap (namesBelow? place)).Nodup := by
      refine (nodup_files single).filterMap fun target target' names first second => ?_
      rw [(namesBelow?_eq_some_iff.1 first).1, (namesBelow?_eq_some_iff.1 second).1]
    rw [List.filterMap_map] at once
    refine once.map_on fun names mem names' mem' same => ?_
    obtain ⟨file, -, down⟩ := List.mem_filterMap.1 mem
    obtain ⟨file', -, down'⟩ := List.mem_filterMap.1 mem'
    exact below_inj (namesBelow?_eq_some_iff.1 down).2.2 (namesBelow?_eq_some_iff.1 down').2.2 same
  · exact List.nodup_singleton _
  · exact List.nodup_nil

theorem perm_find (fs : FileStore) (root : Path) : (find fs root).Perm ((filesBelow fs root).filter isArchive) :=
  List.mergeSort_perm _ _

theorem nodup_find (single : fs.Unambiguous) (root : Path) : (find fs root).Nodup :=
  (perm_find fs root).nodup_iff.2 ((nodup_filesBelow single root).filter _)

theorem pairwise_find (fs : FileStore) (root : Path) : (find fs root).Pairwise fun p q => Path.le p q := by
  refine List.pairwise_mergeSort (fun p q r first second => ?_) (fun p q => ?_) _
  · exact componentsLe_trans first second
  · simpa [Path.le] using componentsLe_total p.components q.components

end Archives
end MigrationMining
