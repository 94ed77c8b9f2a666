import MigrationMining.Pipeline.Download
import MigrationMining.Proofs.CacheEntry
import MigrationMining.Proofs.ScratchNames
import MigrationMining.Proofs.WorldServices

/-! Where downloads change files: below the root that an archive is stored under, for all releases whose fields neither go up
nor replace the root. -/

namespace MigrationMining

/-- The place lies below another one, by names only. -/
def Place.Below (base q : Place) : Prop := ∃ names : List String, q = base ++ names ∧ ∀ name ∈ names, Path.PlainName name

namespace Path

variable {root p : Path}

/-- The places that the way along a path goes through. -/
def Through (p : Path) (q : Place) : Prop := ∃ ds, ds <+: p.components ∧ q = ds.foldl FileStore.nextPlace []

theorem foldl_nextPlace_map_normal (place : Place) (names : List String) :
    (names.map Component.normal).foldl FileStore.nextPlace place = place ++ names := by
  induction names generalizing place with
  | nil => simp
  | cons name names ih =>
    rw [List.map_cons, List.foldl_cons, ih, FileStore.nextPlace, List.append_assoc, List.singleton_append]

theorem Under.below (under : root.Under p) : root.place.Below p.place := by
  obtain ⟨names, whole, plain⟩ := under
  exact ⟨names, by rw [place, whole, List.foldl_append, foldl_nextPlace_map_normal, place], plain⟩

theorem Under.through (under : root.Under p) {q : Place} (through : p.Through q) :
    root.Through q ∨ root.place.Below q := by
  obtain ⟨names, whole, plain⟩ := under
  obtain ⟨ds, before, rfl⟩ := through
  rw [whole] at before
  rcases List.prefix_or_prefix_of_prefix before (List.prefix_append root.components _) with above | ⟨es, rfl⟩
  · exact .inl ⟨ds, above, rfl⟩
  · obtain ⟨rest, cut⟩ := (List.prefix_append_right_inj root.components).1 before
    obtain ⟨first, last, rfl, rfl, -⟩ := List.map_eq_append_iff.1 cut.symm
    refine .inr ⟨first, ?_, fun name mem => plain name (List.mem_append_left last mem)⟩
    rw [List.foldl_append, foldl_nextPlace_map_normal, place]

theorem under_div (p : Path) {name : String} (plain : PlainName name) : p.Under (p / name) :=
  ⟨[name], components_div p plain, by simpa using plain⟩

theorem Under.div (under : root.Under p) {name : String} (plain : PlainName name) : root.Under (p / name) := by
  obtain ⟨names, whole, plain'⟩ := under
  refine ⟨names ++ [name], ?_, fun other mem => ?_⟩
  · rw [components_div p plain, whole]
    simp
  · rcases List.mem_append.1 mem with old | new
    · exact plain' other old
    · rwa [List.mem_singleton.1 new]

theorem Under.directory {name other : String} (under : root.Under (p / name)) (under' : root.Under (p / other))
    (plain : PlainName name) (plain' : PlainName other) (ne : name ≠ other) : root.Under p := by
  obtain ⟨names, whole, named⟩ := under
  obtain ⟨names', whole', -⟩ := under'
  rw [components_div p plain] at whole
  rw [components_div p plain'] at whole'
  rcases List.eq_nil_or_concat names with rfl | ⟨before, last, rfl⟩
  · -- the root cannot be named in the directory, as the other name would lead from it to itself
    rw [List.map_nil, List.append_nil] at whole
    have lengths := congrArg List.length whole'
    rw [← whole] at lengths whole'
    have none : names' = [] := List.eq_nil_of_length_eq_zero (by simpa using lengths)
    subst none
    simp [ne.symm] at whole'
  · rw [List.concat_eq_append, List.map_append, ← List.append_assoc] at whole
    refine ⟨before, (List.append_inj' whole rfl).1, fun name mem => named name ?_⟩
    rw [List.concat_eq_append]
    exact List.mem_append_left _ mem

theorem exists_slash_of_head {cs : List Char} (head : cs.head? = some '/') :
    ∃ slashes, cs = slashes ++ '/' :: cs.dropWhile (· = '/') := by
  induction cs with
  | nil => cases head
  | cons c cs ih =>
    obtain rfl := Option.some.inj head
    rw [List.dropWhile_cons_of_pos (by simp)]
    by_cases more : cs.head? = some '/'
    · obtain ⟨slashes, whole⟩ := ih more
      exact ⟨'/' :: slashes, congrArg (List.cons '/') whole⟩
    · refine ⟨[], ?_⟩
      cases cs with
      | nil => rfl
      | cons d cs => rw [List.dropWhile_cons_of_neg (by simpa using more), List.nil_append]

theorem exists_of_directoryOf? {dir : Path} (found : FileStore.directoryOf? p = some dir) :
    dir.isEmpty = false ∧ ∃ rest, p.text.toList = dir.text.toList ++ '/' :: rest := by
  unfold FileStore.directoryOf? at found
  dsimp only at found
  obtain ⟨trailing, named⟩ : p.text.toList.reverse.dropWhile (fun c => decide (c = '/')) <:+ p.text.toList.reverse :=
    List.dropWhile_suffix _
  generalize p.text.toList.reverse.dropWhile (fun c => decide (c = '/')) = name at found named
  obtain ⟨last, cut⟩ : name.dropWhile (fun c => decide (c ≠ '/')) <:+ name := List.dropWhile_suffix _
  have head := List.head?_dropWhile_not (fun c => decide (c ≠ '/')) name
  generalize name.dropWhile (fun c => decide (c ≠ '/')) = rest at found cut head
  split at found
  · cases found
  · next left =>
    cases found
    have slash : rest.head? = some '/' := by
      cases rest with
      | nil => exact absurd rfl left
      | cons c rest => simpa using head
    obtain ⟨slashes, whole⟩ := exists_slash_of_head slash
    refine ⟨isEmpty_eq_false_iff.2 (by simpa using left), (trailing ++ last ++ slashes).reverse, ?_⟩
    rw [← List.reverse_inj, ← named, ← cut]
    simpa using whole

theorem components_directoryOf? (p : Path) : ((FileStore.directoryOf? p).getD ⟨""⟩).components <+: p.components := by
  cases found : FileStore.directoryOf? p with
  | none => exact List.nil_prefix
  | some dir =>
    obtain ⟨nonempty, rest, chars⟩ := exists_of_directoryOf? found
    have absolute : p.isAbsolute = dir.isAbsolute := by
      rw [isAbsolute, isAbsolute, chars, head?_append_of_ne_nil (isEmpty_eq_false_iff.1 nonempty)]
    exact ⟨_, (components_of_slash absolute (.inl rfl) chars).symm⟩

end Path

namespace FileStore

variable {fs fs' fs'' : FileStore} {root root' p source target : Path} {place q : Place}

/-- Whatever differs between two trees is below a root, but for new directories on the way to it. -/
def ChangesBelow (root : Path) (fs fs' : FileStore) : Prop :=
  ∀ q, fs'.node? q = fs.node? q ∨ root.place.Below q ∨
    root.Through q ∧ fs.node? q = none ∧ fs'.node? q = some .directory

namespace ChangesBelow

theorem refl (root : Path) (fs : FileStore) : ChangesBelow root fs fs := fun _ => .inl rfl

theorem trans (first : ChangesBelow root fs fs') (second : ChangesBelow root fs' fs'') : ChangesBelow root fs fs'' := by
  intro q
  rcases second q with kept | below | ⟨through, free, made⟩
  · rw [kept]
    exact first q
  · exact .inr (.inl below)
  · rcases first q with kept | below | ⟨-, -, directory⟩
    · exact .inr (.inr ⟨through, kept ▸ free, made⟩)
    · exact .inr (.inl below)
    · rw [directory] at free
      cases free

theorem of_under (under : root.Under root') (changes : ChangesBelow root' fs fs') : ChangesBelow root fs fs' := by
  intro q
  rcases changes q with kept | ⟨names, rfl, plain⟩ | ⟨through, free, made⟩
  · exact .inl kept
  · obtain ⟨first, whole, plain'⟩ := under.below
    refine .inr (.inl ⟨first ++ names, by rw [whole, List.append_assoc], fun name mem => ?_⟩)
    exact (List.mem_append.1 mem).elim (plain' name) (plain name)
  · rcases under.through through with through | below
    · exact .inr (.inr ⟨through, free, made⟩)
    · exact .inr (.inl below)

theorem put (below : root.place.Below place) (fs : FileStore) (node : FileNode) : ChangesBelow root fs (fs.put place node) := by
  intro q
  by_cases here : q = place
  · exact .inr (.inl (here ▸ below))
  · exact .inl (node?_put_of_ne fs here node)

theorem erase (below : root.place.Below place) (fs : FileStore) : ChangesBelow root fs (fs.erase place) := by
  intro q
  by_cases here : q = place
  · exact .inr (.inl (here ▸ below))
  · exact .inl (node?_erase_of_ne fs here)

theorem writeBytes (under : root.Under p) {content : ByteArray} (written : fs.writeBytes p content = .ok fs') :
    ChangesBelow root fs fs' := by
  obtain ⟨place, located, -, -, rfl⟩ := eq_put_of_writeBytes written
  exact put (place_of_locate located ▸ under.below) fs _

theorem remove (under : root.Under p) (removed : fs.remove p = .ok fs') : ChangesBelow root fs fs' := by
  obtain ⟨place, located, -, rfl⟩ := eq_erase_of_remove removed
  exact erase (place_of_locate located ▸ under.below) fs

theorem rename (from_root : root.Under source) (to_root : root.Under target) (renamed : fs.rename source target = .ok fs') :
    ChangesBelow root fs fs' := by
  obtain ⟨content, modified, before, after, -, source_located, target_located, -, rfl⟩ := eq_put_of_rename renamed
  exact (erase (place_of_locate source_located ▸ from_root.below) fs).trans
    (put (place_of_locate target_located ▸ to_root.below) _ _)

theorem makeDirectories (under : root.Under target) {dir : Path} (above : dir.components <+: target.components)
    (fs : FileStore) : ChangesBelow root fs (treeAfter (fs.makeDirectories dir)) := by
  intro q
  rcases fs.node?_makeDirectories dir q with kept | ⟨⟨ds, before, at_q⟩, free, directory⟩
  · exact .inl kept
  · rcases under.through ⟨ds, before.trans above, at_q⟩ with through | below
    · exact .inr (.inr ⟨through, free, directory⟩)
    · exact .inr (.inl below)

end ChangesBelow
end FileStore

def World.ChangesBelow (root : Path) (w w' : World) : Prop := FileStore.ChangesBelow root w.files w'.files

namespace World.ChangesBelow

variable {root : Path}

theorem refl (w : World) : w.ChangesBelow root w := FileStore.ChangesBelow.refl root w.files

theorem trans (u v w : World) (first : u.ChangesBelow root v) (second : v.ChangesBelow root w) :
    u.ChangesBelow root w := FileStore.ChangesBelow.trans first second

theorem allows : Allows (ChangesBelow root) where
  refl := refl
  trans := trans
  asks w _ := refl w
  reports w _ := refl w

theorem stores {target : Path} (under : root.Under target) (scratch : ∀ m n, root.Under (Fetch.scratch target m n)) :
    Allows.Stores (ChangesBelow root) target where
  begins w _ := refl w
  directories w := .makeDirectories under (Path.components_directoryOf? target) w.files
  writes m n _ _ _ := .writeBytes (scratch m n)
  removes m n _ _ := .remove (scratch m n)
  moves m n _ _ := .rename (scratch m n) under

end World.ChangesBelow

namespace Layout

variable {c : Coordinate}

theorem under_scratch (named : c.group ≠ "") (relative : ¬ c.Rooted) (level : ¬ c.Climbs) (root : Path) (m n : Nat) :
    root.Under (Fetch.scratch (archivePath root c "jar") m n) := by
  have under (extension : String) (slashFree : '/' ∉ extension.toList) (solid : ∃ ch ∈ extension.toList, ch ≠ '.') :
      root.Under ((archivePath root c "").append extension) := by
    rw [append_archivePath]
    exact under_archivePath named relative level slashFree solid root
  obtain ⟨d, front, ending⟩ := (archivePath root c "").exists_append_eq_div
  have jar := under "jar" (by decide) ⟨'j', by decide⟩
  have war := under "war" (by decide) ⟨'w', by decide⟩
  rw [(ending (by decide)).1] at jar war
  have own : archivePath root c "jar" = d / (front ++ "jar") := by
    rw [← (ending (by decide)).1, append_archivePath]
    rfl
  have directory := jar.directory war (ending (by decide)).2 (ending (by decide)).2 (by simp)
  have plain : Path.PlainName (front ++ "jar") := (ending (by decide)).2
  rw [own, Fetch.scratch_div d plain]
  exact directory.div (Fetch.plainName_partName plain m n)

end Layout

/-- Storing the archive of a release whose fields neither go up nor replace the root changes files below the root only. -/
theorem Repository.changesBelow_archive (r : Repository) {c : Coordinate} (named : c.group ≠ "") (relative : ¬ c.Rooted)
    (level : ¬ c.Climbs) (root : Path) : World.Leads (World.ChangesBelow root) (r.archive c root) := by
  have under : root.Under (Layout.archivePath root c "jar") :=
    Layout.under_archivePath named relative level (by decide) ⟨'j', by decide⟩ root
  exact World.ChangesBelow.allows.archive (World.ChangesBelow.stores under (Layout.under_scratch named relative level root)) r

namespace DownloadSummary

variable {s : Setup} {x : Extractor} {root : Path}

theorem changesBelow_fetchAll (seen : List (Coordinate × Path)) (summary : DownloadSummary) {queue : List (Coordinate × Path)}
    (plain : ∀ job ∈ queue, job.1.group ≠ "" ∧ ¬ job.1.Rooted ∧ ¬ job.1.Climbs) (under : ∀ job ∈ queue, root.Under job.2) :
    World.Leads (World.ChangesBelow root) (fetchAll (s.services x) seen summary queue) := by
  induction queue generalizing seen summary with
  | nil => exact .pure World.ChangesBelow.refl _
  | cons job queue ih =>
    obtain ⟨⟨named, relative, level⟩, plain⟩ := List.forall_mem_cons.1 plain
    obtain ⟨first, under⟩ := List.forall_mem_cons.1 under
    unfold fetchAll
    split
    · exact ih seen summary plain under
    · refine .bind World.ChangesBelow.trans World.ChangesBelow.refl fun cancelled => ?_
      split
      · exact .pure World.ChangesBelow.refl _
      · refine .bind World.ChangesBelow.trans ?_ fun summary => ih _ summary plain under
        refine .bind World.ChangesBelow.trans ?_ fun found => ?_
        · intro w
          exact .of_under first (s.archives.changesBelow_archive named relative level job.2 w)
        · cases found with
          | some path => exact .pure World.ChangesBelow.refl _
          | none =>
            exact .bind World.ChangesBelow.trans (World.ChangesBelow.allows.report _) fun _ => .pure World.ChangesBelow.refl _

/-- The downloads for an analysis change files below its directory only, if no field of a release goes up or replaces
what stands before it. -/
theorem changesBelow_run (s : Setup) (x : Extractor) {a : Analysis} {scope : DownloadScope}
    (plain : ∀ job ∈ a.queue scope, job.1.group ≠ "" ∧ ¬ job.1.Rooted ∧ ¬ job.1.Climbs) :
    World.Leads (World.ChangesBelow a.directory) (run (s.services x) a scope) := by
  refine changesBelow_fetchAll [] {} plain fun job mem => ?_
  rcases List.mem_append.1 mem with library | client
  · obtain ⟨c, -, rfl⟩ := List.mem_map.1 library
    exact Path.under_div _ (.of_mem (by decide) (c := 'l') (by decide) (by decide))
  · obtain ⟨c, -, rfl⟩ := List.mem_map.1 client
    exact Path.under_div _ (.of_mem (by decide) (c := 'l') (by decide) (by decide))

end DownloadSummary

/-- The archive of a release has its path inside every root if and only if no field of the release goes up or replaces the
root, and then storing it changes files below the root only. A field that replaces the root leads to one path for all
roots. -/
theorem Coordinate.archive_contained_iff {text : String} {c : Coordinate} (read : parse text = .ok c) (root : Path) :
    (root.Inside (Layout.archivePath root c "jar") ↔
      ¬ c.Rooted ∧ ¬ c.Climbs ∨ c.Rooted ∧ root.Inside (Layout.archivePath ⟨""⟩ c "jar")) ∧
    (root.isAbsolute = false → root.isEmpty = false →
      (root.Inside (Layout.archivePath root c "jar") ↔ ¬ c.Rooted ∧ ¬ c.Climbs)) ∧
    (¬ c.Rooted → ¬ c.Climbs → ∀ (r : Repository) (w : World),
      FileStore.ChangesBelow root w.files (r.archive c root w).2.files) := by
  have named : c.group ≠ "" := by
    intro none
    exact (readable_of_parse read).nonempty.1 (by rw [none]; rfl)
  refine ⟨Layout.inside_archivePath_iff named root, Layout.inside_archivePath_iff_of_relative named,
    fun relative level r w => ?_⟩
  exact r.changesBelow_archive named relative level root w

theorem Coordinate.archive_contained_of_dotted_pieces :
    (⟨"../data"⟩ : Path).Inside (Layout.archivePath ⟨"../data"⟩ ⟨"g//h", "..a", "1/.../2"⟩ "jar") ∧
      ∀ (r : Repository) (w : World), FileStore.ChangesBelow ⟨"../data"⟩ w.files
        (r.archive ⟨"g//h", "..a", "1/.../2"⟩ ⟨"../data"⟩ w).2.files := by
  have read : parse " g//h:..a:jar:1/.../2 " = .ok ⟨"g//h", "..a", "1/.../2"⟩ := by decide
  obtain ⟨-, inside, changes⟩ := archive_contained_iff read ⟨"../data"⟩
  exact ⟨(inside rfl rfl).2 ⟨by decide, by decide⟩, changes (by decide) (by decide)⟩

/-- A repository that has the archive of a release whose artifact begins with a slash. -/
def rootedArchive : World where
  web := { pages := [("http://repo.test/g//a/1//a-1.jar", [.answered 200 "jar".toUTF8 true])] }

/-- A path outside the root, because a field replaces it or goes up; the archive is stored there. -/
theorem Coordinate.archive_outside_root :
    parse "g:/a:1" = .ok ⟨"g", "/a", "1"⟩ ∧ parse "g:a:../../../../up" = .ok ⟨"g", "a", "../../../../up"⟩ ∧
      ¬ (⟨"data"⟩ : Path).Inside (Layout.archivePath ⟨"data"⟩ ⟨"g", "/a", "1"⟩ "jar") ∧
      ¬ (⟨"data"⟩ : Path).Inside (Layout.archivePath ⟨"data"⟩ ⟨"g", "a", "../../../../up"⟩ "jar") ∧
      (Repository.archive ⟨"http://repo.test", "", ⟨.plain, ⟨0, some 1⟩⟩⟩ ⟨"g", "/a", "1"⟩ ⟨"data"⟩ rootedArchive).1 =
        some ⟨"/a-1.jar"⟩ ∧
      ((Repository.archive ⟨"http://repo.test", "", ⟨.plain, ⟨0, some 1⟩⟩⟩ ⟨"g", "/a", "1"⟩ ⟨"data"⟩ rootedArchive).2.files.contentAt?
        ["/", "a-1.jar"]).isSome ∧
      ¬ (⟨"data"⟩ : Path).place.Below ["/", "a-1.jar"] := by
  refine ⟨by decide, by decide, ?_, ?_, by decide +kernel, by decide +kernel, ?_⟩
  · rw [Layout.inside_archivePath_iff_of_relative (by decide) rfl rfl]
    decide
  · rw [Layout.inside_archivePath_iff_of_relative (by decide) rfl rfl]
    decide
  · rintro ⟨names, whole, -⟩
    have place : (⟨"data"⟩ : Path).place = ["data"] := by decide
    rw [place] at whole
    simp at whole

end MigrationMining
