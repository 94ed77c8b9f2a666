import MigrationMining.Proofs.NamedFiles
import MigrationMining.Proofs.ReleaseDirectories

/-! Paths at which something comes into being when their directory is made. In a tree such a path goes up out of a directory
that is missing. -/

namespace MigrationMining
namespace FileStore
open MigrationMining.Path

variable {fs fs' : FileStore} {p : Path} {q : Place}

/-- Every directory that something is named in is there. -/
def IsTree (fs : FileStore) : Prop :=
  ∀ place name, fs.node? (place ++ [name]) ≠ none → fs.node? place = some .directory

/-- Nothing is found at the path before its directory is made, and something afterwards. -/
def Uncovers (fs : FileStore) (p : Path) : Prop :=
  fs.exists? p = false ∧ ∃ fs', fs.makeDirectories ((directoryOf? p).getD ⟨""⟩) = .ok fs' ∧ fs'.exists? p

/-- The way along a path goes up from where nothing stands. -/
def LeavesNothing (fs : FileStore) (p : Path) : Prop :=
  ∃ ds, ds ++ [.parent] <+: p.components ∧ fs.node? (ds.foldl nextPlace []) = none

theorem uncovers_iff (absent : fs.exists? p = false)
    (made : fs.makeDirectories ((directoryOf? p).getD ⟨""⟩) = .ok fs') : fs.Uncovers p ↔ fs'.exists? p := by
  constructor
  · rintro ⟨-, _, made', there⟩
    obtain rfl := Except.ok.inj (made.symm.trans made')
    exact there
  · exact fun there => ⟨absent, fs', made, there⟩

/-- Where directories could not be made the way is not open: a file stands on it, or it cannot be followed. -/
theorem node?_ne_directory_of_interrupted {cs es : List Path.Component} {place target : Place} {e : Interrupted}
    (failed : cs.foldlM stepMaking (fs, place) = .error e)
    (named : ∀ c ∈ (cs ++ es).tail, c = .parent ∨ ∃ name, c = .normal name)
    (followed : (cs ++ es).foldlM e.files.step place = .ok target) : e.files.node? target ≠ some .directory := by
  induction cs generalizing fs place with
  | nil => cases failed
  | cons c cs ih =>
    rw [List.cons_append, List.foldlM_cons] at followed
    obtain ⟨next, stepped, rest⟩ := bind_eq_ok_iff.1 followed
    rw [List.foldlM_cons] at failed
    cases first : stepMaking (fs, place) c with
    | ok reached =>
      obtain ⟨fs₁, here⟩ := reached
      rw [first] at failed
      obtain ⟨there, stepped', made⟩ := bind_eq_ok_iff.1 first
      obtain ⟨fs₂, -, same⟩ := bind_eq_ok_iff.1 made
      cases same
      obtain rfl := next_of_step stepped
      obtain rfl := next_of_step (orInterrupt_eq_ok_iff.1 stepped')
      exact ih failed (fun c mem => named c (List.mem_of_mem_tail mem)) rest
    | error e' =>
      rw [first] at failed
      cases failed
      have same := files_of_stepMaking_eq_error first
      rw [same] at stepped rest ⊢
      have blocked : fs.node? next ≠ some .directory := by
        intro directory
        have stepped' : fs.orInterrupt (fs.step place c) = .ok next := orInterrupt_eq_ok_iff.2 stepped
        have kept : fs.makeDirectory next = .ok fs := by rw [makeDirectory, directory]
        rw [stepMaking, stepped'] at first
        change fs.orInterrupt (fs.makeDirectory next) >>= _ = _ at first
        rw [kept] at first
        cases first
      cases onward : cs ++ es with
      | nil =>
        rw [onward] at rest
        cases rest
        exact blocked
      | cons c' cs' =>
        rw [onward] at rest
        obtain ⟨_, second, -⟩ := bind_eq_ok_iff.1 (List.foldlM_cons.symm.trans rest)
        have required : ∃ u, fs.requireDirectory next = .ok u := by
          rcases named c' (by simp [onward]) with rfl | ⟨name, rfl⟩ <;>
          · unfold step at second
            cases required : fs.requireDirectory next with
            | ok u => exact ⟨u, rfl⟩
            | error _ => simp [required, Except.map] at second
        obtain ⟨⟨⟩, required⟩ := required
        exact absurd (requireDirectory_eq_ok_iff.1 required) blocked

theorem not_exists?_of_interrupted {d : Path} {name : String} {e : Interrupted} (plain : PlainName name)
    (failed : fs.makeDirectories ((directoryOf? (d / name)).getD ⟨""⟩) = .error e) :
    e.files.exists? (d / name) = false := by
  refine Bool.eq_false_iff.2 fun there => ?_
  obtain ⟨opens, -⟩ := (exists?_div plain).1 there
  obtain ⟨es, whole⟩ := components_directoryOf?_div d plain
  rw [makeDirectories] at failed
  generalize (FileStore.directoryOf? (d / name)).getD ⟨""⟩ = dir at failed whole
  cases folded : dir.components.foldlM stepMaking (fs, []) with
  | ok reached =>
    rw [folded] at failed
    cases failed
  | error e' =>
    rw [folded] at failed
    cases failed
    have named : ∀ c ∈ (dir.components ++ es).tail, c = .parent ∨ ∃ name, c = .normal name := by
      intro c mem
      rw [whole] at mem
      rcases eq_parent_or_normal_of_mem (mem_namedIn_of_mem_tail mem) with rfl | ⟨name, rfl, -⟩
      · exact .inl rfl
      · exact .inr ⟨name, rfl⟩
    exact node?_ne_directory_of_interrupted folded named (whole.symm ▸ opens.1) opens.2

theorem not_uncovers_of_error {e : Interrupted}
    (failed : fs.makeDirectories ((directoryOf? p).getD ⟨""⟩) = .error e) : ¬ fs.Uncovers p := by
  rintro ⟨-, _, made, -⟩
  cases failed.symm.trans made

/-- The directory of the path can be made, and then a file with that content can be written at the other path. -/
def Takes (fs : FileStore) (p scratch : Path) (content : ByteArray) : Prop :=
  ∃ fs', fs.makeDirectories ((directoryOf? p).getD ⟨""⟩) = .ok fs' ∧ ∃ written, fs'.writeBytes scratch content = .ok written

theorem takes_iff {scratch : Path} {content : ByteArray}
    (made : fs.makeDirectories ((directoryOf? p).getD ⟨""⟩) = .ok fs') :
    fs.Takes p scratch content ↔ ∃ written, fs'.writeBytes scratch content = .ok written := by
  constructor
  · rintro ⟨_, made', written⟩
    obtain rfl := Except.ok.inj (made.symm.trans made')
    exact written
  · exact fun written => ⟨fs', made, written⟩

theorem not_takes_of_error {e : Interrupted} {scratch : Path} {content : ByteArray}
    (failed : fs.makeDirectories ((directoryOf? p).getD ⟨""⟩) = .error e) : ¬ fs.Takes p scratch content := by
  rintro ⟨_, made, -⟩
  cases failed.symm.trans made

theorem node?_nil (fs : FileStore) : fs.node? [] = some .directory := rfl

theorem isTree_empty : IsTree {} := by
  intro place name there
  have fixed : isFixedDirectory (place ++ [name]) := by
    by_contra other
    exact there (by simp [node?, other])
  have above : isFixedDirectory place := by
    simp only [isFixedDirectory, Bool.or_eq_true, decide_eq_true_eq, List.all_append, Bool.and_eq_true] at fixed ⊢
    rcases fixed with root | ⟨up, -⟩
    · obtain ⟨rfl, -⟩ : place = [] ∧ name = "/" := by simpa using List.append_eq_singleton_iff.1 root
      exact .inr rfl
    · exact .inr up
  rw [node?, if_pos above]

theorem IsTree.node?_append_eq_none (tree : fs.IsTree) (missing : fs.node? q = none) (names : List String) :
    fs.node? (q ++ names) = none := by
  induction names using List.reverseRecOn with
  | nil => rwa [List.append_nil]
  | append_singleton names name ih =>
    by_contra there
    rw [← List.append_assoc] at there
    have directory := tree _ _ there
    rw [ih] at directory
    cases directory

theorem foldlM_step_or_missing (extends' : Extends fs fs') {cs : List Path.Component} {place target : Place}
    (followed : cs.foldlM fs'.step place = .ok target) : cs.foldlM fs.step place = .ok target ∨
      ∃ ds c es, cs = ds ++ c :: es ∧ fs.node? (ds.foldl nextPlace place) = none := by
  induction cs generalizing place with
  | nil => exact .inl followed
  | cons c cs ih =>
    obtain ⟨next, first, rest⟩ := bind_eq_ok_iff.1 (List.foldlM_cons.symm.trans followed)
    have next_eq := next_of_step first
    cases held : fs.node? place with
    | none => exact .inr ⟨[], c, cs, rfl, held⟩
    | some node =>
      have same := extends' place node held
      have stepped : fs.step place c = .ok next := by
        rw [← first]
        cases c <;> simp only [step, requireDirectory, held, same]
      rcases ih rest with there | ⟨ds, d, es, rfl, missing⟩
      · exact .inl (List.foldlM_cons.trans (bind_eq_ok_iff.2 ⟨next, stepped, there⟩))
      · exact .inr ⟨c :: ds, d, es, rfl, by rwa [List.foldl_cons, ← next_eq]⟩

theorem exists_names_of_missing (tree : fs.IsTree) (level : ¬ fs.LeavesNothing p) (ds es : List Path.Component)
    (before : ds ++ es <+: p.components) (missing : fs.node? (ds.foldl nextPlace []) = none) :
    ∃ names : List String, es = names.map .normal := by
  -- the way before the last component goes on by names, so nothing stands where it leads to either
  induction es using List.reverseRecOn with
  | nil => exact ⟨[], rfl⟩
  | append_singleton es c ih =>
    rw [← List.append_assoc] at before
    obtain ⟨names, rfl⟩ := ih ((List.prefix_append _ [c]).trans before)
    have nothing : fs.node? ((ds ++ names.map Path.Component.normal).foldl nextPlace []) = none := by
      rw [List.foldl_append, foldl_nextPlace_map_normal]
      exact tree.node?_append_eq_none missing names
    -- only a first component can be the root or the current directory, and something stands before it
    have later : c ∈ p.components.tail := by
      obtain ⟨d, ds, rfl⟩ : ∃ d ds', ds = d :: ds' := by
        refine List.exists_cons_of_ne_nil ?_
        rintro rfl
        rw [List.foldl_nil, node?_nil] at missing
        cases missing
      obtain ⟨rest, whole⟩ := before
      rw [← whole]
      simp
    have kind := (isPart_of_mem_tail later).2
    unfold component at kind
    split at kind
    · rw [← kind] at before
      exact absurd ⟨_, before, nothing⟩ level
    · exact ⟨names ++ [Layout.componentText c], by rw [List.map_append, List.map_singleton, kind]⟩

theorem place_of_missing (tree : fs.IsTree) (level : ¬ fs.LeavesNothing p) {ds es : List Path.Component}
    (whole : p.components = ds ++ es) (missing : fs.node? (ds.foldl nextPlace []) = none) :
    ∃ names : List String, es = names.map .normal ∧ p.place = ds.foldl nextPlace [] ++ names ∧
      fs.node? p.place = none := by
  obtain ⟨names, rfl⟩ := exists_names_of_missing tree level ds es ⟨[], by rw [List.append_nil, whole]⟩ missing
  have onward : p.place = ds.foldl nextPlace [] ++ names := by
    rw [Path.place, whole, List.foldl_append, foldl_nextPlace_map_normal]
  exact ⟨names, rfl, onward, onward ▸ tree.node?_append_eq_none missing names⟩

variable {d : Path} {name : String}

theorem node?_place_of_makeDirectories (tree : fs.IsTree) (plain : PlainName name)
    (level : ¬ fs.LeavesNothing (d / name))
    (made : fs.makeDirectories ((directoryOf? (d / name)).getD ⟨""⟩) = .ok fs') :
    fs'.node? (d / name).place = fs.node? (d / name).place := by
  rcases node?_of_makeDirectories made (d / name).place with kept | ⟨⟨ds, before, at_ds⟩, free, -⟩
  · exact kept
  · -- the way would go on from there by names and yet end there
    exfalso
    obtain ⟨es, whole⟩ := before.trans (components_directoryOf?_div d plain)
    have components : (d / name).components = ds ++ (es ++ [.normal name]) := by
      rw [components_div d plain, ← whole, List.append_assoc]
    rw [at_ds] at free
    obtain ⟨names, all, onward, -⟩ := place_of_missing tree level components free
    obtain rfl : names = [] := by simpa using at_ds.symm.trans onward
    simp at all

/-- In a tree something comes into being at the path of a file with its directory only if the path goes up from nothing. -/
theorem IsTree.leavesNothing_of_uncovers (tree : fs.IsTree) (plain : PlainName name) (uncovers : fs.Uncovers (d / name)) :
    fs.LeavesNothing (d / name) := by
  obtain ⟨absent, fs', made, there⟩ := uncovers
  by_contra level
  obtain ⟨opens, node, held⟩ := (exists?_div plain).1 there
  rw [node?_place_of_makeDirectories tree plain level made] at held
  have located := (locate_div plain).2 ⟨opens, rfl⟩
  rw [locate_eq_foldlM (isEmpty_div d plain)] at located
  rcases foldlM_step_or_missing (extends_makeDirectories made) located with followed | ⟨ds, c, es, whole, missing⟩
  · rw [← locate_eq_foldlM (isEmpty_div d plain), locate_div plain] at followed
    have present := (exists?_div plain).2 ⟨followed.1, node, held⟩
    rw [absent] at present
    cases present
  · obtain ⟨names, -, -, nothing⟩ := place_of_missing tree level whole missing
    rw [nothing] at held
    cases held

end FileStore
end MigrationMining
