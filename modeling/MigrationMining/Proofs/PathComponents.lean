import MigrationMining.Path
import MigrationMining.Proofs.Pieces

/-! The components of joined paths: those of the first path, and after them the pieces of the second one that name something,
unless the second path is absolute. -/

namespace MigrationMining
namespace Path

variable {p q : Path}

/-- The components that the pieces of a text between slashes stand for. -/
def namedIn (text : String) : List Component := (Text.splitOn '/' text.toList).filterMap componentOf?

theorem componentOf?_eq_some {piece : List Char} {c : Component} (h : componentOf? piece = some c) :
    c = .parent ∨ c = .normal (.ofList piece) := by
  unfold componentOf? at h
  split at h
  · cases h
  · split at h
    · exact .inl (Option.some.inj h).symm
    · exact .inr (Option.some.inj h).symm

theorem componentOf?_eq_parent_iff {piece : List Char} : componentOf? piece = some .parent ↔ piece = ['.', '.'] := by
  constructor
  · intro h
    unfold componentOf? at h
    split at h
    · cases h
    · split at h
      · assumption
      · cases h
  · rintro rfl
    rfl

/-- A name of a file or a directory that stands for itself in a path. -/
structure PlainName (name : String) : Prop where
  slashFree : '/' ∉ name.toList
  ordinary : componentOf? name.toList = some (.normal name)

theorem PlainName.of_mem {name : String} (slashFree : '/' ∉ name.toList) {c : Char} (mem : c ∈ name.toList)
    (solid : c ≠ '.') : PlainName name := by
  refine ⟨slashFree, ?_⟩
  have ne {piece : List Char} (h : c ∉ piece) : name.toList ≠ piece := fun same => h (same ▸ mem)
  rw [componentOf?, if_neg (by simp [ne, solid]), if_neg (ne (by simp [solid])), String.ofList_toList]

theorem PlainName.of_suffix {front suffix : String} (slashFree : '/' ∉ front.toList) (slashFree' : '/' ∉ suffix.toList)
    {c : Char} (mem : c ∈ suffix.toList) (solid : c ≠ '.') : PlainName (front ++ suffix) := by
  refine .of_mem (c := c) ?_ ?_ solid
  · simp [slashFree, slashFree']
  · simp [mem]

theorem PlainName.of_underscore {name : String} (slashFree : '/' ∉ name.toList) (underscore : '_' ∈ name.toList) :
    PlainName name := .of_mem slashFree underscore (by decide)

theorem PlainName.toList_ne {name : String} (plain : PlainName name) :
    name.toList ≠ [] ∧ name.toList ≠ ['.'] ∧ name.toList ≠ ['.', '.'] := by
  refine ⟨fun same => ?_, fun same => ?_, fun same => ?_⟩ <;>
  · have ordinary := plain.ordinary
    rw [same] at ordinary
    cases ordinary

theorem eq_parent_or_normal_of_mem {text : String} {c : Component} (mem : c ∈ namedIn text) :
    c = .parent ∨ ∃ name, c = .normal name ∧ PlainName name := by
  obtain ⟨piece, cut, named⟩ := List.mem_filterMap.1 mem
  rcases componentOf?_eq_some named with rfl | rfl
  · exact .inl rfl
  · refine .inr ⟨_, rfl, ?_, ?_⟩
    · rw [String.toList_ofList]
      exact Text.notMem_of_mem_splitOn cut
    · rw [String.toList_ofList, named]

theorem exists_map_normal {cs : List Component} (plain : ∀ c ∈ cs, ∃ name, c = .normal name ∧ PlainName name) :
    ∃ names : List String, cs = names.map .normal ∧ ∀ name ∈ names, PlainName name := by
  induction cs with
  | nil => exact ⟨[], rfl, by simp⟩
  | cons c cs ih =>
    obtain ⟨⟨name, rfl, first⟩, later⟩ := List.forall_mem_cons.1 plain
    obtain ⟨names, rfl, rest⟩ := ih later
    exact ⟨name :: names, rfl, List.forall_mem_cons.2 ⟨first, rest⟩⟩

theorem parent_mem_namedIn {text : String} : .parent ∈ namedIn text ↔ ['.', '.'] ∈ Text.splitOn '/' text.toList := by
  simp [namedIn, componentOf?_eq_parent_iff]

theorem head?_append_of_ne_nil {α : Type} {xs : List α} (ne : xs ≠ []) (ys : List α) :
    (xs ++ ys).head? = xs.head? := by
  obtain ⟨x, xs, rfl⟩ := List.exists_cons_of_ne_nil ne
  rfl

theorem isEmpty_eq_false_iff : p.isEmpty = false ↔ p.text.toList ≠ [] := by
  simp [isEmpty]

theorem isAbsolute_append (nonempty : p.isEmpty = false) (suffix : String) :
    isAbsolute ⟨p.text ++ suffix⟩ = p.isAbsolute := by
  rw [isAbsolute, isAbsolute, String.toList_append, head?_append_of_ne_nil (isEmpty_eq_false_iff.1 nonempty)]

theorem join_eq_of_absolute (absolute : q.isAbsolute) : p.join q = q := by
  simp [join, absolute]

theorem join_eq_of_isEmpty (empty : p.isEmpty) : p.join q = q := by
  simp [join, empty]

theorem exists_text_join (relative : q.isAbsolute = false) (nonempty : p.isEmpty = false) :
    ∃ front, (p.text.toList = front ∨ p.text.toList = front ++ ['/']) ∧
      (p.join q).text.toList = front ++ '/' :: q.text.toList := by
  rw [join, relative, nonempty, Bool.or_false, if_neg (by decide)]
  split
  · next slash =>
    obtain ⟨front, chars⟩ := List.getLast?_eq_some_iff.1 slash
    exact ⟨front, .inr chars, by simp [chars]⟩
  · exact ⟨p.text.toList, .inl rfl, by simp⟩

theorem isAbsolute_join (p q : Path) : (p.join q).isAbsolute = (p.isAbsolute || q.isAbsolute) := by
  cases absolute : q.isAbsolute with
  | true => rw [join_eq_of_absolute absolute, absolute, Bool.or_true]
  | false =>
    cases empty : p.isEmpty with
    | true =>
      have none : p.text.toList = [] := by simpa [isEmpty] using empty
      rw [join_eq_of_isEmpty empty, absolute, isAbsolute, none]
      rfl
    | false =>
      rw [join, absolute, empty, Bool.or_false, Bool.or_false, if_neg (by decide)]
      split
      · exact isAbsolute_append empty _
      · rw [String.append_assoc]
        exact isAbsolute_append empty _

theorem append_join (p : Path) (nonempty : q.isEmpty = false) (suffix : String) :
    (p.join q).append suffix = p.join (q.append suffix) := by
  have relative : (q.append suffix).isAbsolute = q.isAbsolute := isAbsolute_append nonempty suffix
  rw [join, join, relative]
  split
  · rfl
  · split <;> simp [append, String.append_assoc]

theorem isEmpty_join (p q : Path) : (p.join q).isEmpty = (p.isEmpty && q.isEmpty) := by
  cases empty : p.isEmpty with
  | true => rw [join_eq_of_isEmpty empty, Bool.true_and]
  | false =>
    rw [Bool.false_and, isEmpty_eq_false_iff]
    rw [isEmpty_eq_false_iff] at empty
    cases absolute : q.isAbsolute with
    | true =>
      rw [join_eq_of_absolute absolute]
      intro none
      simp [isAbsolute, none] at absolute
    | false =>
      obtain ⟨front, -, chars⟩ := exists_text_join absolute (isEmpty_eq_false_iff.2 empty)
      simp [chars]

theorem components_of_slash {front rest : List Char} (absolute : q.isAbsolute = p.isAbsolute)
    (before : p.text.toList = front ∨ p.text.toList = front ++ ['/']) (chars : q.text.toList = front ++ '/' :: rest) :
    q.components = p.components ++ (Text.splitOn '/' rest).filterMap componentOf? := by
  have pieces : Text.splitOn '/' q.text.toList = Text.splitOn '/' front ++ Text.splitOn '/' rest := by
    rw [chars, Text.splitOn_append_cons]
  have first := head?_append_of_ne_nil (Text.splitOn_ne_nil '/' front)
  rcases before with before | before
  · simp only [components, absolute, pieces, before, first, List.filterMap_append, List.append_assoc]
  · have empty : componentOf? [] = none := rfl
    have own : Text.splitOn '/' p.text.toList = Text.splitOn '/' front ++ [[]] := by
      rw [before, Text.splitOn_append_cons]
      rfl
    simp only [components, absolute, pieces, own, first, List.filterMap_append, List.append_assoc,
      List.filterMap_cons_none empty, List.filterMap_nil, List.nil_append]

theorem mem_namedIn_of_mem_tail {c : Component} (mem : c ∈ p.components.tail) : c ∈ namedIn p.text := by
  simp only [components] at mem
  split at mem
  · exact mem
  · split at mem
    · exact mem
    · exact List.mem_of_mem_tail mem

theorem components_join (relative : q.isAbsolute = false) (nonempty : p.isEmpty = false) :
    (p.join q).components = p.components ++ namedIn q.text := by
  obtain ⟨front, before, chars⟩ := exists_text_join relative nonempty
  exact components_of_slash (by rw [isAbsolute_join, relative, Bool.or_false]) before chars

theorem components_of_relative (relative : p.isAbsolute = false)
    (named : (Text.splitOn '/' p.text.toList).head? ≠ some ['.']) : p.components = namedIn p.text := by
  simp [components, relative, named, namedIn]

/-- A relative path that does not begin with a dot of its own adds what its pieces name, wherever it is joined. -/
theorem components_join_of_named (p : Path) (relative : q.isAbsolute = false)
    (named : (Text.splitOn '/' q.text.toList).head? ≠ some ['.']) :
    (p.join q).components = p.components ++ namedIn q.text := by
  cases empty : p.isEmpty with
  | false => exact components_join relative empty
  | true =>
    obtain rfl : p = ⟨""⟩ := by
      cases p
      simpa [isEmpty] using empty
    have none : components ⟨""⟩ = [] := rfl
    rw [join_eq_of_isEmpty empty, components_of_relative relative named, none, List.nil_append]

theorem PlainName.not_isAbsolute {name : String} (plain : PlainName name) : isAbsolute ⟨name⟩ = false := by
  refine decide_eq_false fun head => plain.slashFree ?_
  exact List.mem_of_mem_head? head

theorem components_div (p : Path) {name : String} (plain : PlainName name) :
    (p / name).components = p.components ++ [.normal name] := by
  have whole : Text.splitOn '/' name.toList = [name.toList] := Text.splitOn_of_notMem plain.slashFree
  have named : namedIn name = [.normal name] := by
    rw [namedIn, whole, List.filterMap_cons_some plain.ordinary, List.filterMap_nil]
  rw [← named]
  refine components_join_of_named p plain.not_isAbsolute ?_
  simpa [whole] using plain.toList_ne.2.1

theorem append_div (p : Path) {name : String} (plain : PlainName name) (suffix : String) :
    (p / name).append suffix = p / (name ++ suffix) :=
  append_join p (isEmpty_eq_false_iff.2 plain.toList_ne.1) suffix

theorem fileName?_div (p : Path) {name : String} (plain : PlainName name) : (p / name).fileName? = some name := by
  rw [fileName?, components_div p plain, List.getLast?_concat]

/-- The text of a path to a name: what it is put after ends in a slash or is empty, and is the same for all names. -/
theorem exists_text_div (p : Path) : ∃ front : List Char, (front = [] ∨ ∃ before, front = before ++ ['/']) ∧
    ∀ {name : String}, PlainName name → (p / name).text.toList = front ++ name.toList := by
  cases empty : p.isEmpty with
  | true => exact ⟨[], .inl rfl, fun _ => congrArg (String.toList ∘ text) (join_eq_of_isEmpty empty)⟩
  | false =>
    by_cases slash : p.text.toList.getLast? = some '/'
    · obtain ⟨before, chars⟩ := List.getLast?_eq_some_iff.1 slash
      refine ⟨p.text.toList, .inr ⟨before, chars⟩, fun {name} plain => ?_⟩
      change (p.join ⟨name⟩).text.toList = _
      rw [join, plain.not_isAbsolute, empty, Bool.or_false, if_neg (by decide), if_pos slash, String.toList_append]
    · refine ⟨p.text.toList ++ ['/'], .inr ⟨_, rfl⟩, fun {name} plain => ?_⟩
      change (p.join ⟨name⟩).text.toList = _
      rw [join, plain.not_isAbsolute, empty, Bool.or_false, if_neg (by decide), if_neg slash]
      simp

def extended (name extension : String) : String := (splitExtension name).1 ++ "." ++ extension

theorem withExtension_div (p : Path) {name extension : String} (plain : PlainName name)
    (plain' : PlainName (extended name extension)) (nonempty : extension.isEmpty = false) :
    (p / name).withExtension extension = p / extended name extension := by
  obtain ⟨front, ends, text⟩ := p.exists_text_div
  have named : componentOf? name.toList ≠ none := by simp [plain.ordinary]
  have last := Text.splitOn_of_notMem plain.slashFree
  have other := Text.splitOn_of_notMem plain'.slashFree
  rw [withExtension, fileName?_div p plain]
  simp only [nonempty, Bool.false_eq_true, if_false]
  rw [← extended, text plain, Path.mk.injEq, ← String.toList_inj, String.toList_ofList, text plain']
  rcases ends with rfl | ⟨before, rfl⟩
  · simp [last, named, Text.joinWith]
  · rw [List.append_assoc, List.singleton_append, Text.splitOn_append_cons, last, List.reverse_append,
      List.reverse_singleton, List.singleton_append, List.dropWhile_cons_of_neg (by simpa using named), List.tail_cons,
      List.reverse_reverse, ← other, ← Text.splitOn_append_cons, Text.joinWith_splitOn, List.append_assoc,
      List.singleton_append]

theorem root_mem_components_iff : .root ∈ p.components ↔ p.isAbsolute := by
  have pieces : .root ∉ (Text.splitOn '/' p.text.toList).filterMap componentOf? := by
    intro mem
    have other := eq_parent_or_normal_of_mem (show .root ∈ namedIn p.text from mem)
    rcases other with same | ⟨name, same, -⟩ <;> cases same
  unfold components
  cases absolute : p.isAbsolute with
  | true => simp
  | false => by_cases dot : (Text.splitOn '/' p.text.toList).head? = some ['.'] <;> simp [dot, pieces]

theorem components_eq_cons_of_absolute (absolute : p.isAbsolute) : ∃ rest, p.components = .root :: rest :=
  ⟨_, by rw [components, if_pos absolute]; rfl⟩

theorem components_ne_nil (relative : p.isAbsolute = false) (nonempty : p.isEmpty = false) : p.components ≠ [] := by
  obtain ⟨c, cs, chars⟩ := List.exists_cons_of_ne_nil (isEmpty_eq_false_iff.1 nonempty)
  have solid : c ≠ '/' := by
    rintro rfl
    simp [isAbsolute, chars] at relative
  obtain ⟨piece, pieces, -, cut⟩ := Text.exists_splitOn_cons solid cs
  rw [← chars] at cut
  by_cases dot : c :: piece = ['.']
  · simp [components, relative, cut, dot]
  · have named : (componentOf? (c :: piece)).isSome := by
      unfold componentOf?
      split
      · simp_all
      · split <;> rfl
    obtain ⟨component, named⟩ := Option.isSome_iff_exists.1 named
    simp [components, cut, List.filterMap_cons_some named]

end Path
end MigrationMining
