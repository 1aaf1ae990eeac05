import Mathlib.Data.List.Basic
import Mathlib.Data.List.Infix
import ModelLint.Path
import ModelLint.Proofs.Text

namespace ModelLint

/-! Paths and their components.

A path is spelled by texts between slashes, and the spelling of a joined or cut path is that of
its parts. The directories around a path leave out its last component, then the last two, and
so on. -/

namespace Path

open Text

/-- A text that can be the name of a file or directory. -/
structure IsName (name : String) : Prop where
  nonempty : name ≠ ""
  notCurrent : name ≠ "."
  notParent : name ≠ ".."
  noSlash : '/' ∉ name.toList

instance : DecidablePred IsName := fun name =>
  decidable_of_iff (name ≠ "" ∧ name ≠ "." ∧ name ≠ ".." ∧ '/' ∉ name.toList)
    ⟨fun ⟨nonempty, notCurrent, notParent, noSlash⟩ => ⟨nonempty, notCurrent, notParent, noSlash⟩,
      fun isName => ⟨isName.nonempty, isName.notCurrent, isName.notParent, isName.noSlash⟩⟩

theorem IsName.inner?_eq {name : String} (isName : IsName name) :
    inner? name = some (.normal name) := by
  simp [inner?, isName.nonempty, isName.notCurrent, isName.notParent]

variable {base path name : String}

theorem splitSlashes_of_toList {front behind : List Char}
    (spelled : path.toList = front ++ '/' :: behind) :
    splitSlashes path = splitSlashes (.ofList front) ++ splitSlashes (.ofList behind) := by
  simp only [splitSlashes, pieces_eq_splitOn, spelled, List.splitOn_append_cons_self,
    List.map_append, String.toList_ofList]

theorem splitSlashes_intercalate {names : List String} (nonempty : names ≠ [])
    (noSlash : ∀ name ∈ names, '/' ∉ name.toList) :
    splitSlashes ("/".intercalate names) = names := by
  have parts : ∀ part ∈ names.map String.toList, '/' ∉ part := by
    intro part member
    obtain ⟨name, inside, rfl⟩ := List.mem_map.mp member
    exact noSlash name inside
  simp only [splitSlashes, pieces_eq_splitOn, String.toList_intercalate]
  rw [show "/".toList = ['/'] from rfl,
    List.splitOn_intercalate '/' parts (by simpa using nonempty)]
  simp

theorem splitSlashes_of_noSlash (noSlash : '/' ∉ name.toList) : splitSlashes name = [name] := by
  have spelled := splitSlashes_intercalate (List.cons_ne_nil name [])
    (fun other member => by rwa [List.mem_singleton.mp member])
  simpa using spelled

theorem noSlash_of_mem_splitSlashes (member : name ∈ splitSlashes path) : '/' ∉ name.toList := by
  obtain ⟨piece, inPieces, rfl⟩ := List.mem_map.mp member
  rw [String.toList_ofList]
  exact notMem_of_mem_pieces inPieces

theorem isAbsolute_iff : isAbsolute path = true ↔ ∃ rest, path.toList = '/' :: rest := by
  rw [isAbsolute, beq_iff_eq, List.head?_eq_some_iff]

/-- The segments of a path: what stands between its slashes and backslashes, where anything does. -/
def HasSegments (path : String) (names : List String) : Prop :=
  ∃ parts, Parts (fun c => c = '/' || c = '\\') path.toList parts ∧
    names.map String.toList = parts.filter (· ≠ [])

theorem parts_withSlashes {text : List Char} {parts : List (List Char)}
    (given : Parts (fun c => c = '/' || c = '\\') text parts) :
    Parts (· == '/') (text.map fun c => if c = '\\' then '/' else c) parts := by
  have kept {part : List Char} (free : ∀ c ∈ part, (c = '/' || c = '\\') = false) :
      (part.map fun c => if c = '\\' then '/' else c) = part ∧ ∀ c ∈ part, (c == '/') = false := by
    simp only [Bool.or_eq_false_iff, decide_eq_false_iff_not] at free
    constructor
    · exact (List.map_congr_left fun c member => if_neg (free c member).2).trans part.map_id
    · exact fun c member => beq_false_of_ne (free c member).1
  induction given with
  | last free =>
      obtain ⟨same, slashless⟩ := kept free
      rw [same]
      exact .last slashless
  | cons free here _ ih =>
      obtain ⟨same, slashless⟩ := kept free
      rw [List.map_append, same, List.map_cons]
      refine .cons slashless ?_ ih
      split
      · rfl
      · simpa [*] using here

theorem hasSegments_iff {names : List String} :
    HasSegments path names ↔ segments (withSlashes path) = names := by
  have split {parts : List (List Char)}
      (given : Parts (fun c => c = '/' || c = '\\') path.toList parts) :
      (segments (withSlashes path)).map String.toList = parts.filter (· ≠ []) := by
    have cut := parts_iff.mp (parts_withSlashes given)
    rw [segments, splitSlashes, pieces_eq_splitOn, List.splitOn_eq_splitOnP, withSlashes,
      String.toList_ofList, cut]
    clear cut given
    induction parts with
    | nil => rfl
    | cons part rest ih => cases part <;> simpa using ih
  constructor
  · rintro ⟨parts, given, same⟩
    rw [← split given] at same
    exact (List.map_injective_iff.mpr (fun _ _ => String.toList_injective) same).symm
  · rintro rfl
    exact ⟨_, parts_splitOnP _ _, split (parts_splitOnP _ _)⟩

/-- An absolute path has nothing in front of its first slash. -/
theorem isAbsolute_iff_splitSlashes :
    isAbsolute path = true ↔ ∃ second rest, splitSlashes path = "" :: second :: rest := by
  constructor
  · intro absolute
    obtain ⟨rest, spelled⟩ := isAbsolute_iff.mp absolute
    have parts := splitSlashes_of_toList (show _ = [] ++ '/' :: rest from spelled)
    cases later : splitSlashes (.ofList rest) with
    | nil =>
        simp only [splitSlashes, pieces_eq_splitOn, List.map_eq_nil_iff] at later
        exact absurd later (List.splitOn_ne_nil _ _)
    | cons second others => exact ⟨second, others, by rw [parts, later]; rfl⟩
  · rintro ⟨second, rest, parts⟩
    cases spelled : path.toList with
    | nil => simp [splitSlashes, spelled, pieces] at parts
    | cons c others =>
        by_cases slash : c = '/'
        · exact isAbsolute_iff.mpr ⟨others, by rw [spelled, slash]⟩
        · cases later : pieces '/' others <;>
            simp [splitSlashes, spelled, pieces, slash, later] at parts

theorem isAbsolute_intercalate {names : List String} (nonempty : names ≠ [])
    (named : ∀ name ∈ names, IsName name) : isAbsolute ("/".intercalate names) = false := by
  apply Bool.eq_false_iff.mpr
  intro absolute
  obtain ⟨rest, spelled⟩ := isAbsolute_iff.mp absolute
  -- The text before a leading slash is empty, and no name is.
  have parts := splitSlashes_of_toList (show _ = [] ++ '/' :: rest from spelled)
  rw [splitSlashes_intercalate nonempty fun name member => (named name member).noSlash] at parts
  exact (named "" (by rw [parts]; simp [splitSlashes, pieces])).nonempty rfl

theorem filterMap_inner?_join (relative : isAbsolute path = false) :
    (splitSlashes (join base path)).filterMap inner? =
      (splitSlashes base).filterMap inner? ++ (splitSlashes path).filterMap inner? := by
  by_cases ends : base = "" ∨ base.toList.getLast? = some '/'
  · have joined : join base path = base ++ path := by simp [join, relative, ends]
    rcases ends with rfl | slash
    · rw [joined, String.empty_append]
      rfl
    · -- The slash at the end of the base only parts off an empty text.
      obtain ⟨front, spelled⟩ := List.getLast?_eq_some_iff.mp slash
      have whole : (base ++ path).toList = front ++ '/' :: path.toList := by
        simp [spelled]
      rw [joined, splitSlashes_of_toList whole, splitSlashes_of_toList spelled,
        String.ofList_toList]
      simp [splitSlashes, pieces, inner?]
  · have joined : join base path = base ++ "/" ++ path := by simp [join, relative, ends]
    have whole : (base ++ "/" ++ path).toList = base.toList ++ '/' :: path.toList := by simp
    rw [joined, splitSlashes_of_toList whole, String.ofList_toList, String.ofList_toList,
      List.filterMap_append]

theorem isAbsolute_join (absolute : isAbsolute base = true) (relative : isAbsolute path = false) :
    isAbsolute (join base path) = true := by
  obtain ⟨rest, spelled⟩ := isAbsolute_iff.mp absolute
  apply isAbsolute_iff.mpr
  simp only [join, relative, Bool.false_eq_true, if_false]
  split <;> simp [spelled]

theorem components_join (absolute : isAbsolute base = true) (relative : isAbsolute path = false) :
    components (join base path) = components base ++ (splitSlashes path).filterMap inner? := by
  simp only [components, isAbsolute_join absolute relative, absolute, if_true,
    filterMap_inner?_join relative, List.append_assoc]

/-- What stands behind a slash at the end of a path is the name of the file. -/
theorem fileName_of_toList {front : List Char} (isName : IsName name)
    (spelled : path.toList = front ++ '/' :: name.toList) : fileName path = name := by
  have parts : splitSlashes path = splitSlashes (.ofList front) ++ [name] := by
    rw [splitSlashes_of_toList spelled, String.ofList_toList,
      splitSlashes_of_noSlash isName.noSlash]
  have last : (components path).getLast? = some (.normal name) := by
    rw [components, parts, List.filterMap_append, List.filterMap_cons_some isName.inner?_eq]
    simp
  rw [fileName, fileName?, last]
  rfl

theorem fileName_of_isName (isName : IsName name) : fileName name = name := by
  have relative : isAbsolute name = false := by
    apply Bool.eq_false_iff.mpr
    intro absolute
    obtain ⟨rest, spelled⟩ := isAbsolute_iff.mp absolute
    exact isName.noSlash (by simp [spelled])
  simp [fileName, fileName?, components, relative, splitSlashes_of_noSlash isName.noSlash,
    isName.notCurrent, isName.inner?_eq]

theorem isName_of_backslash (member : '\\' ∈ name.toList) (noSlash : '/' ∉ name.toList) :
    IsName name where
  nonempty same := by simp [same] at member
  notCurrent same := by simp [same] at member
  notParent same := by simp [same] at member
  noSlash := noSlash

/-- What stands behind a backslash at the end of a path is only a part of the name of the file. -/
theorem fileName_of_backslash {front : List Char} (noSlash : '/' ∉ name.toList)
    (spelled : path.toList = front ++ '\\' :: name.toList) :
    ∃ inner, (fileName path).toList = inner ++ '\\' :: name.toList := by
  by_cases slash : '/' ∈ front
  · -- The name begins behind the last slash, the first one from the end.
    obtain ⟨inner, outer, reversed, free⟩ :=
      List.eq_append_cons_of_mem (List.mem_reverse.mpr slash)
    have split : front = outer.reverse ++ '/' :: inner.reverse := by
      rw [← List.reverse_reverse front, reversed]
      simp
    have isName : IsName (.ofList (inner.reverse ++ '\\' :: name.toList)) :=
      isName_of_backslash (by simp) (by simp [free, noSlash])
    have whole : path.toList = outer.reverse ++
        '/' :: (String.ofList (inner.reverse ++ '\\' :: name.toList)).toList := by
      simp [spelled, split]
    exact ⟨inner.reverse, by rw [fileName_of_toList isName whole, String.toList_ofList]⟩
  · have isName : IsName path :=
      isName_of_backslash (by simp [spelled]) (by simp [spelled, slash, noSlash])
    exact ⟨front, by rw [fileName_of_isName isName, spelled]⟩

/-- The components that the texts between slashes spell, given whether the path is absolute. -/
def spelledBy (absolute : Bool) (segments : List String) : List Component :=
  (if absolute then [.root] else if segments.head? = some "." then [.current] else []) ++
    segments.filterMap inner?

theorem spelledBy_snoc {absolute : Bool} {segments : List String} (nonempty : segments ≠ [])
    (segment : String) :
    spelledBy absolute (segments ++ [segment]) =
      spelledBy absolute segments ++ (inner? segment).toList := by
  have last : [segment].filterMap inner? = (inner? segment).toList := by
    cases contributed : inner? segment <;> simp [contributed]
  rw [spelledBy, List.head?_append_of_ne_nil _ nonempty, List.filterMap_append, last, spelledBy,
    List.append_assoc]

theorem componentEnds_snoc (segments : List String) (segment : String) :
    componentEnds (segments ++ [segment]) = componentEnds segments ++
      if (inner? segment).isSome ∨ segments.length = 0 ∧ segment = "." then [segments.length + 1]
      else [] := by
  simp only [componentEnds, List.zipIdx_append, List.filterMap_append, Nat.zero_add,
    List.zipIdx_singleton]
  congr 1
  split <;> simp_all

theorem mem_componentEnds {segments : List String} {count : Nat}
    (member : count ∈ componentEnds segments) : ∃ index segment, count = index + 1 ∧
      segments[index]? = some segment ∧ ((inner? segment).isSome ∨ index = 0 ∧ segment = ".") := by
  obtain ⟨⟨segment, index⟩, listed, isEnd⟩ := List.mem_filterMap.mp member
  rw [Option.ite_none_right_eq_some, Option.some.injEq] at isEnd
  exact ⟨index, segment, isEnd.2.symm, List.mk_mem_zipIdx_iff_getElem?.mp listed, isEnd.1⟩

/-- Each end of a component cuts off a longer part of the components. -/
theorem map_componentEnds {absolute : Bool} {segments : List String}
    (rooted : absolute = true → ∀ first, segments.head? = some first → first = "") :
    (if absolute then [.root] else []) ::
        (componentEnds segments).map (fun count => spelledBy absolute (segments.take count)) =
      (spelledBy absolute segments).inits.drop (if absolute then 1 else 0) := by
  induction segments using List.reverseRecOn with
  | nil => cases absolute <;> rfl
  | append_singleton segments segment ih =>
      have kept : (componentEnds segments).map
            (fun count => spelledBy absolute ((segments ++ [segment]).take count)) =
          (componentEnds segments).map (fun count => spelledBy absolute (segments.take count)) := by
        apply List.map_congr_left
        intro count member
        obtain ⟨index, _, rfl, listed, _⟩ := mem_componentEnds member
        rw [List.take_append_of_le_length (List.getElem?_eq_some_iff.mp listed).1]
      rw [componentEnds_snoc, List.map_append, kept, ← List.cons_append]
      rcases eq_or_ne segments [] with rfl | nonempty
      · cases absolute with
        | true =>
            obtain rfl := rooted rfl segment rfl
            rfl
        | false =>
            by_cases isDot : segment = "."
            · subst isDot
              rfl
            · cases contributed : inner? segment <;>
                simp [componentEnds, spelledBy, contributed, isDot]
      · have later : segments.length ≠ 0 := by simpa using nonempty
        have short : (if absolute then 1 else 0) ≤ (spelledBy absolute segments).inits.length := by
          rw [List.length_inits]
          split <;> omega
        rw [ih fun isAbsolute first head => rooted isAbsolute first
          (by rwa [List.head?_append_of_ne_nil _ nonempty])]
        have whole : (segments ++ [segment]).take (segments.length + 1) = segments ++ [segment] :=
          List.take_of_length_le (by simp)
        cases contributed : inner? segment with
        | none => simp [spelledBy_snoc nonempty, contributed, later]
        | some component =>
            simp [whole, spelledBy_snoc nonempty, contributed,
              List.drop_append_of_le_length short]

theorem components_intercalate_take {count : Nat}
    (member : count ∈ componentEnds (splitSlashes path)) :
    components ("/".intercalate ((splitSlashes path).take count)) =
      spelledBy (isAbsolute path) ((splitSlashes path).take count) := by
  obtain ⟨index, segment, rfl, listed, isEnd⟩ := mem_componentEnds member
  have parts : splitSlashes ("/".intercalate ((splitSlashes path).take (index + 1))) =
      (splitSlashes path).take (index + 1) := by
    apply splitSlashes_intercalate
    · intro empty
      rcases List.take_eq_nil_iff.mp empty with none | none <;> simp_all
    · intro name inside
      exact noSlash_of_mem_splitSlashes (List.mem_of_mem_take inside)
  have sameStart : isAbsolute ("/".intercalate ((splitSlashes path).take (index + 1))) =
      isAbsolute path := by
    rw [Bool.eq_iff_iff, isAbsolute_iff_splitSlashes, isAbsolute_iff_splitSlashes, parts]
    constructor
    · rintro ⟨second, rest, front⟩
      refine ⟨second, rest ++ (splitSlashes path).drop (index + 1), ?_⟩
      rw [← List.cons_append, ← List.cons_append, ← front, List.take_append_drop]
    · rintro ⟨second, rest, whole⟩
      -- The empty text in front of the first slash is no component.
      cases index with
      | zero => simp_all [inner?]
      | succ index => exact ⟨second, rest.take index, by rw [whole]; rfl⟩
  rw [components, parts, sameStart]
  rfl

/-- The directories around a path, nearest first, leave out its last components one by one. The
last of them is the empty path, or the root if the path is absolute. -/
theorem components_ancestors (path : String) :
    (ancestors path).map components =
      ((components path).inits.drop (if isAbsolute path then 1 else 0)).dropLast.reverse := by
  have rooted : isAbsolute path = true →
      ∀ first, (splitSlashes path).head? = some first → first = "" := by
    intro absolute first head
    obtain ⟨second, rest, parts⟩ := isAbsolute_iff_splitSlashes.mp absolute
    simpa [parts, eq_comm] using head
  have outermost : components (if isAbsolute path then "/" else "") =
      if isAbsolute path then [.root] else [] := by
    cases isAbsolute path <;> rfl
  have inner : ((componentEnds (splitSlashes path)).map fun count =>
        "/".intercalate ((splitSlashes path).take count)).map components =
      (componentEnds (splitSlashes path)).map fun count =>
        spelledBy (isAbsolute path) ((splitSlashes path).take count) := by
    rw [List.map_map]
    apply List.map_congr_left
    intro count member
    exact components_intercalate_take member
  simp only [ancestors, List.map_reverse, List.map_dropLast, List.map_cons, outermost, inner]
  rw [map_componentEnds rooted]
  rfl

end Path

end ModelLint
