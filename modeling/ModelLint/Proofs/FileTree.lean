import Mathlib.Data.List.Forall2
import ModelLint.Ignore.Sources
import ModelLint.Proofs.Lookup
import ModelLint.Proofs.Path

namespace ModelLint

/-! Trees whose files come in another order.

The order of the files of a tree is the order in which they were listed. No file shares its
route with another, so every question about the tree has the same answer in any order, and so
have all questions about its ignore files. -/

namespace FileTree

/-- What holds of the files on a disk: no two share a route, none of them is a directory, and
every name on the way to one is the name of something. -/
structure Sound (tree : FileTree) : Prop where
  apart : tree.files.Pairwise fun one other => one.1 ≠ other.1
  leaves : ∀ file ∈ tree.files, tree.isDirectory file.1 = false
  named : ∀ file ∈ tree.files, ∀ name ∈ file.1, Path.IsName name

instance (tree : FileTree) : Decidable tree.Sound :=
  decidable_of_iff ((tree.files.Pairwise fun one other => one.1 ≠ other.1) ∧
      (∀ file ∈ tree.files, tree.isDirectory file.1 = false) ∧
      ∀ file ∈ tree.files, ∀ name ∈ file.1, Path.IsName name)
    ⟨fun ⟨apart, leaves, named⟩ => ⟨apart, leaves, named⟩,
      fun sound => ⟨sound.apart, sound.leaves, sound.named⟩⟩

/-- The same directories and the same contents. -/
structure LooksLike (tree other : FileTree) : Prop where
  isDirectory_eq : tree.isDirectory = other.isDirectory
  contentAt?_eq : tree.contentAt? = other.contentAt?

variable {tree other : FileTree} {files : List (Route × ByteArray)}

theorem Sound.looksLike (sound : tree.Sound) (permuted : files.Perm tree.files) :
    LooksLike { tree with files := files } tree where
  isDirectory_eq := by
    funext route
    simp only [isDirectory, permuted.any_eq]
  contentAt?_eq := by
    funext route
    simp only [contentAt?, find?_eq_of_perm permuted sound.apart route]

namespace LooksLike

theorem follow?_eq (alike : tree.LooksLike other) (start : Route) (segments : List String) :
    tree.follow? start segments = other.follow? start segments := by
  induction segments generalizing start with
  | nil => rfl
  | cons segment rest ih => simp only [follow?, alike.isDirectory_eq, ih]

theorem trace?_eq (alike : tree.LooksLike other) (path : String) :
    tree.trace? path = other.trace? path := by
  simp only [trace?, alike.follow?_eq]

theorem locate?_eq (alike : tree.LooksLike other) (path : String) :
    tree.locate? path = other.locate? path := by
  simp only [locate?, alike.trace?_eq]

variable {workplace : Workplace}

theorem locateFrom?_eq (alike : tree.LooksLike other) (path : String) :
    workplace.locate? tree path = workplace.locate? other path := by
  simp only [Workplace.locate?, alike.trace?_eq]

theorem readFrom?_eq (alike : tree.LooksLike other) :
    workplace.read? tree = workplace.read? other := by
  funext path
  simp only [Workplace.read?, alike.locateFrom?_eq, alike.contentAt?_eq]

end LooksLike

end FileTree

namespace Ignore

open FileTree (LooksLike)

variable {tree other : FileTree} {files : List (Route × ByteArray)} {workplace : Workplace}

theorem firstLine_eq (alike : tree.LooksLike other) (path : String) :
    firstLine tree workplace path = firstLine other workplace path := by
  simp only [firstLine, alike.locateFrom?_eq, alike.isDirectory_eq, alike.contentAt?_eq]

theorem excludeOfLink_eq (alike : tree.LooksLike other) (link : String) :
    excludeOfLink tree workplace link = excludeOfLink other workplace link := by
  simp only [excludeOfLink, linkedExclude, firstLine_eq alike]

theorem repository?_eq (alike : tree.LooksLike other) :
    repository? tree workplace = repository? other workplace := by
  funext route
  simp only [repository?, excludeOfLink_eq alike]

theorem personalFile_eq (alike : tree.LooksLike other) :
    personalFile tree workplace = personalFile other workplace := by
  have settings : pathFromSettings? tree workplace = pathFromSettings? other workplace := by
    funext file
    simp only [pathFromSettings?, alike.readFrom?_eq]
  simp only [personalFile, personalPath?, settings, alike.readFrom?_eq]

/-- The same ignore files in another order, no two of them of one directory. -/
structure Layer.Shuffles (layer other : Layer) : Prop where
  permuted : layer.Perm other
  apart : other.Pairwise fun one another => one.1 ≠ another.1

theorem Layer.Shuffles.layerVerdict?_eq {layer other : Layer} (shuffles : layer.Shuffles other) :
    Sources.layerVerdict? layer = Sources.layerVerdict? other := by
  funext route isDirectory
  simp only [Sources.layerVerdict?, lookup_eq_of_perm shuffles.permuted shuffles.apart]

theorem layerNamed_shuffles (sound : tree.Sound) (permuted : files.Perm tree.files)
    (name : String) :
    (layerNamed { tree with files := files } name).Shuffles (layerNamed tree name) where
  permuted := permuted.filterMap _
  apart := by
    apply sound.apart.filterMap
    intro one another apart entry found entry' found'
    simp only [Option.ite_none_right_eq_some, Option.some.injEq] at found found'
    obtain ⟨last, rfl⟩ := found
    obtain ⟨last', rfl⟩ := found'
    obtain ⟨directory, route⟩ := List.getLast?_eq_some_iff.mp last
    obtain ⟨directory', route'⟩ := List.getLast?_eq_some_iff.mp last'
    simp only [route, route', List.dropLast_concat]
    intro same
    exact apart (by rw [route, route', same])

theorem repository?_eq_some {route directory : Route} {exclude : ExcludeFile}
    (found : repository? tree workplace route = some (directory, exclude)) :
    route = directory ++ [repositoryEntry] ∨
      route = directory ++ repositoryEntry :: excludeWay := by
  simp only [repository?] at found
  split at found
  next whole =>
    obtain ⟨rfl, _⟩ := Prod.mk.inj (Option.some.inj found)
    exact .inr whole
  next =>
    split at found
    next last =>
      obtain ⟨rfl, _⟩ := Prod.mk.inj (Option.some.inj found)
      obtain ⟨directory, rfl⟩ := List.getLast?_eq_some_iff.mp last
      exact .inl (by rw [List.dropLast_concat])
    next => cases found

/-- A repository has one entry: either the link or the directory around the exclude file. -/
theorem repositories_apart (sound : tree.Sound) :
    (tree.files.filterMap (repository? tree workplace ·.1)).Pairwise fun one another =>
      one.1 ≠ another.1 := by
  -- A link below whose route there is another file would be a directory.
  have lone : ∀ file ∈ tree.files, ∀ directory, file.1 = directory ++ [repositoryEntry] →
      ∀ other ∈ tree.files, other.1 ≠ directory ++ repositoryEntry :: excludeWay := by
    intro file member directory link other otherMember exclude
    have inside : tree.files.any (FileTree.isAbove file.1 ·.1) = true := by
      refine List.any_eq_true.mpr ⟨other, otherMember, ?_⟩
      simp [FileTree.isAbove, link, exclude, excludeWay]
    have leaf := sound.leaves file member
    simp only [FileTree.isDirectory, inside, Bool.or_true, Bool.true_eq_false] at leaf
  refine List.pairwise_filterMap.mpr (sound.apart.imp_of_mem ?_)
  intro one another member member' apart entry found entry' found' same
  have route := repository?_eq_some found
  have route' := repository?_eq_some found'
  rw [same] at route
  rcases route with link | exclude <;> rcases route' with link' | exclude'
  · exact apart (link.trans link'.symm)
  · exact lone one member _ link another member' exclude'
  · exact lone another member' _ link' one member exclude
  · exact apart (exclude.trans exclude'.symm)

/-- The exclude files of repositories. -/
def excludes (tree : FileTree) (workplace : Workplace) : Layer :=
  (tree.files.filterMap (repository? tree workplace ·.1)).filterMap fun
    | (directory, .at path) => (workplace.read? tree path).map (directory, IgnoreFile.parse ·)
    | _ => none

theorem repositories_perm (sound : tree.Sound) (permuted : files.Perm tree.files) :
    (files.filterMap (repository? { tree with files := files } workplace ·.1)).Perm
      (tree.files.filterMap (repository? tree workplace ·.1)) := by
  rw [repository?_eq (sound.looksLike permuted)]
  exact permuted.filterMap _

theorem excludes_shuffles (sound : tree.Sound) (permuted : files.Perm tree.files) :
    (excludes { tree with files := files } workplace).Shuffles (excludes tree workplace) where
  permuted := by
    simp only [excludes, (sound.looksLike permuted).readFrom?_eq]
    exact (repositories_perm sound permuted).filterMap _
  apart := by
    refine (repositories_apart sound).filterMap _ ?_
    rintro ⟨directory, exclude⟩ ⟨directory', exclude'⟩ apart entry found entry' found'
    cases exclude with
    | nowhere | unreadable => cases found
    | «at» path =>
        cases exclude' with
        | nowhere | unreadable => cases found'
        | «at» path' =>
            obtain ⟨content, _, rfl⟩ := Option.map_eq_some_iff.mp found
            obtain ⟨content', _, rfl⟩ := Option.map_eq_some_iff.mp found'
            exact apart

/-- The same ignore files, each kind of them in another order. -/
structure Sources.Shuffles (sources other : Sources) : Prop where
  layers : List.Forall₂ Layer.Shuffles sources.layers other.layers
  unreadable : sources.unreadable.Perm other.unreadable
  personal : sources.personal = other.personal
  workplace : sources.workplace = other.workplace

theorem ofTree_shuffles (sound : tree.Sound) (permuted : files.Perm tree.files)
    (workplace : Workplace) (respectGitignore : Bool) :
    (Sources.ofTree { tree with files := files } workplace respectGitignore).Shuffles
      (.ofTree tree workplace respectGitignore) where
  layers := by
    refine List.rel_append ?_ (.cons (excludes_shuffles sound permuted) .nil)
    rw [List.forall₂_map_left_iff, List.forall₂_map_right_iff, List.forall₂_same]
    exact fun name _ => layerNamed_shuffles sound permuted name
  unreadable := ((repositories_perm sound permuted).filter _).map _
  personal := personalFile_eq (sound.looksLike permuted)
  workplace := rfl

namespace Sources

variable {sources other : Sources} {layers others : List Layer}

theorem findSome?_layerVerdict? (shuffles : List.Forall₂ Layer.Shuffles layers others)
    (route : Route) (isDirectory : Bool) :
    layers.findSome? (layerVerdict? · route isDirectory) =
      others.findSome? (layerVerdict? · route isDirectory) := by
  induction shuffles with
  | nil => rfl
  | cons layer _ ih => rw [List.findSome?_cons, List.findSome?_cons, layer.layerVerdict?_eq, ih]

theorem Shuffles.isIgnored_eq (shuffles : sources.Shuffles other) :
    sources.isIgnored = other.isIgnored := by
  funext route path isDirectory
  have verdict := findSome?_layerVerdict? shuffles.layers route isDirectory
  have shown : sources.personalPath path = other.personalPath path := by
    simp only [personalPath, shuffles.workplace]
  simp only [isIgnored, verdict, shown, shuffles.personal]

theorem all_layers (shuffles : List.Forall₂ Layer.Shuffles layers others)
    (usable : Route × IgnoreFile → Bool) :
    layers.all (·.all usable) = others.all (·.all usable) := by
  induction shuffles with
  | nil => rfl
  | cons layer _ ih => rw [List.all_cons, List.all_cons, layer.permuted.all_eq, ih]

theorem Shuffles.areSoundAbove_eq (shuffles : sources.Shuffles other) :
    sources.areSoundAbove = other.areSoundAbove := by
  funext route
  simp only [areSoundAbove, all_layers shuffles.layers, shuffles.unreadable.any_eq]

end Sources

end Ignore

end ModelLint
