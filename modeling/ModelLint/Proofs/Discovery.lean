import ModelLint.Discovery
import ModelLint.Proofs.FileTree
import ModelLint.Proofs.Violation

namespace ModelLint

/-! Which order model files are found in.

The path of a file is that of the root with the names on the way to the file behind it, so
two files never have the same components. Ordering them by their components then leaves
nothing to the order in which they were listed. -/

namespace Discovery

open ModelLint.Path

/-- One file comes before another by the components of their paths. -/
def ModelFile.Before (earlier later : ModelFile) : Prop :=
  List.Lex Component.Precedes (components earlier.path) (components later.path)

namespace Search

variable {search : Search} {tree : FileTree} {sources : Ignore.Sources} {root way : Route}
  {files : List (Route × ByteArray)} {found : List ModelFile}

theorem components_pathTo (absolute : isAbsolute search.root = true)
    (named : ∀ name ∈ way, IsName name) :
    components (search.pathTo way) = components search.root ++ way.map .normal := by
  cases way with
  | nil => simp [pathTo]
  | cons name rest =>
      have inner : (name :: rest).filterMap inner? = (name :: rest).map .normal := by
        rw [← List.filterMap_eq_map]
        exact List.filterMap_congr fun other member => (named other member).inner?_eq
      have nonempty : name :: rest ≠ [] := List.cons_ne_nil name rest
      simp only [pathTo, List.isEmpty_cons, Bool.false_eq_true, if_false]
      rw [components_join absolute (isAbsolute_intercalate nonempty named),
        splitSlashes_intercalate nonempty fun other member => (named other member).noSlash, inner]

theorem accept?_eq_some {file : Route × ByteArray} {accepted : ModelFile}
    (taken : search.accept? sources root file = some accepted) :
    ∃ way, file.1 = root ++ way ∧ accepted.path = search.pathTo way := by
  simp only [accept?] at taken
  split at taken
  next below =>
    obtain ⟨way, split⟩ := List.isPrefixOf_iff_prefix.mp below
    split at taken
    next =>
      refine ⟨way, split.symm, ?_⟩
      rw [← Option.some.inj taken, ← split, List.drop_left]
    next => cases taken
  next => cases taken

theorem accept?_congr {other : Ignore.Sources} (same : sources.isIgnored = other.isIgnored) :
    search.accept? sources root = search.accept? other root := by
  have ignored : search.isIgnored sources root = search.isIgnored other root := by
    funext way
    rw [isIgnored, isIgnored, same]
  funext file
  rw [accept?, accept?, ignored]

theorem accepted_apart (sound : tree.Sound) (absolute : isAbsolute search.root = true) :
    (tree.files.filterMap (search.accept? sources root)).Pairwise fun one other =>
      components one.path ≠ components other.path := by
  refine List.pairwise_filterMap.mpr (sound.apart.imp_of_mem ?_)
  intro file file' member member' apart one taken other taken' same
  obtain ⟨way, route, path⟩ := accept?_eq_some taken
  obtain ⟨way', route', path'⟩ := accept?_eq_some taken'
  have named : ∀ name ∈ way, IsName name := fun name inside =>
    sound.named file member name (by rw [route]; exact List.mem_append_right root inside)
  have named' : ∀ name ∈ way', IsName name := fun name inside =>
    sound.named file' member' name (by rw [route']; exact List.mem_append_right root inside)
  rw [path, path', components_pathTo absolute named, components_pathTo absolute named',
    List.append_cancel_left_eq] at same
  have ways : way = way' :=
    List.map_injective_iff.mpr (fun _ _ => Component.normal.inj) same
  exact apart (by rw [route, route', ways])

/-- Files in the order of their paths. -/
def byPath (found : List ModelFile) : List ModelFile :=
  found.mergeSort fun left right => (Path.compare left.path right.path).isLE

theorem byPath_perm (found : List ModelFile) : (byPath found).Perm found :=
  List.mergeSort_perm _ _

theorem byPath_inOrder (apart : found.Pairwise fun one other =>
      components one.path ≠ components other.path) :
    (byPath found).Pairwise ModelFile.Before := by
  have chained (first second third : ModelFile)
      (before : (Path.compare first.path second.path).isLE = true)
      (after : (Path.compare second.path third.path).isLE = true) :
      (Path.compare first.path third.path).isLE = true :=
    Std.TransCmp.isLE_trans before after
  have sorted := List.pairwise_mergeSort chained
    (fun left right => isLE_or_isLE Path.compare left.path right.path) found
  have distinct := apart.perm (byPath_perm found).symm Ne.symm
  apply (sorted.and distinct).imp
  rintro earlier later ⟨isLE, differ⟩
  cases compared : Path.compare earlier.path later.path with
  | lt => exact compareComponents_eq_lt.mp compared
  | eq => exact absurd (compareComponents_eq_eq.mp compared) differ
  | gt => simp [compared] at isLE

theorem byPath_eq_of_perm {other : List ModelFile} (permuted : other.Perm found)
    (apart : found.Pairwise fun one other => components one.path ≠ components other.path) :
    byPath other = byPath found := by
  refine List.Perm.eq_of_pairwise ?_ (byPath_inOrder (apart.perm permuted.symm Ne.symm))
    (byPath_inOrder apart) ((byPath_perm other).trans (permuted.trans (byPath_perm found).symm))
  intro one other _ _ before after
  have lt : Path.compare one.path other.path = .lt := compareComponents_eq_lt.mpr before
  exact absurd (compareComponents_eq_lt.mpr after) (Std.OrientedCmp.not_lt_of_lt lt)

theorem isAbsolute_of_locate? (located : tree.locate? search.root = some root) :
    isAbsolute search.root = true := by
  simp only [FileTree.locate?, FileTree.trace?] at located
  split at located
  next => cases located
  next =>
    split at located
    next absolute => exact absolute
    next => cases located

/-- Whether files can be looked for from a root. -/
def isUsable (search : Search) (tree : FileTree) (root : Route) : Bool :=
  if tree.isDirectory root then
    (Ignore.Sources.ofTree tree search.workplace search.respectGitignore).areSoundAbove root
  else (tree.contentAt? root).isSome

/-- The model files below a root, as they were listed. -/
def accepted (search : Search) (tree : FileTree) (root : Route) : List ModelFile :=
  let sources := Ignore.Sources.ofTree tree search.workplace search.respectGitignore
  tree.files.filterMap (search.accept? sources root)

theorem run?_of_locate? (located : tree.locate? search.root = some root) :
    search.run? tree =
      if search.isUsable tree root then some (byPath (search.accepted tree root)) else none := by
  have run : search.run? tree = if !search.isUsable tree root then none
      else some (byPath (search.accepted tree root)) := by
    rw [run?, located]
    rfl
  rw [run]
  cases search.isUsable tree root <;> rfl

theorem isUsable_eq_of_perm (sound : tree.Sound) (permuted : files.Perm tree.files) :
    search.isUsable { tree with files := files } = search.isUsable tree := by
  have alike := sound.looksLike permuted
  have shuffles :=
    Ignore.ofTree_shuffles sound permuted search.workplace search.respectGitignore
  funext root
  simp only [isUsable, alike.isDirectory_eq, alike.contentAt?_eq, shuffles.areSoundAbove_eq]

theorem accepted_perm (sound : tree.Sound) (permuted : files.Perm tree.files) :
    (search.accepted { tree with files := files } root).Perm (search.accepted tree root) := by
  have shuffles :=
    Ignore.ofTree_shuffles sound permuted search.workplace search.respectGitignore
  simp only [accepted, accept?_congr shuffles.isIgnored_eq]
  exact permuted.filterMap _

theorem run?_eq_of_perm (sound : tree.Sound) (permuted : files.Perm tree.files) :
    search.run? { tree with files := files } = search.run? tree := by
  have alike := sound.looksLike permuted
  cases located : tree.locate? search.root with
  | none =>
      have lost := (alike.locate?_eq search.root).trans located
      rw [run?, run?, located, lost]
      rfl
  | some root =>
      have found := (alike.locate?_eq search.root).trans located
      rw [run?_of_locate? located, run?_of_locate? found, isUsable_eq_of_perm sound permuted,
        byPath_eq_of_perm (accepted_perm sound permuted)
          (accepted_apart sound (isAbsolute_of_locate? located))]

/-- The files come in the order of their paths, and no two of them have the same path. -/
theorem run?_inOrder (sound : tree.Sound) (answer : search.run? tree = some found) :
    found.Pairwise ModelFile.Before := by
  cases located : tree.locate? search.root with
  | none => simp [run?, located] at answer
  | some root =>
      rw [run?_of_locate? located] at answer
      split at answer
      next =>
        obtain rfl := Option.some.inj answer
        exact byPath_inOrder (accepted_apart sound (isAbsolute_of_locate? located))
      next => cases answer

end Search

end Discovery

end ModelLint
