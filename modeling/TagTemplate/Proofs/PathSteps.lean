import Mathlib.Data.List.Basic
import TagTemplate.Disk.Basic

/-!
# The steps of joined paths

What a path means is its list of components, and joining works on the text. Both go through the
pieces between the slashes: the components of a path are what begins it, followed by the components
of its pieces (`Path.components_eq`), and the pieces of a joined path are those of the two paths one
after the other. So a relative path without a piece `..` only adds names (`Path.components_join`).
The one exception is a `.` at its start, which is a component of its own if there is nothing in
front of it.

A path that adds at least one name is *below* the other (`Path.Below`). One that adds none leads
back to the folder itself: the pieces `.` and the empty ones need a folder to stand in and stay
there, so it leads to no file (`Disk.isFile_eq_false_of_idle`).
-/

namespace TagTemplate

/-- The name of a file or a folder: a piece of a path that is not one of those with a meaning of
their own. -/
structure FileName (piece : Text) : Prop where
  ne_nil : piece ≠ []
  ne_here : piece ≠ ['.']
  ne_up : piece ≠ ['.', '.']
  no_slash : '/' ∉ piece

namespace Path

/-! ### Components -/

/-- Pieces that lead nowhere are the empty one and the dot. -/
theorem component?_eq_none_iff {piece : Text} :
    component? piece = none ↔ piece = [] ∨ piece = ['.'] := by
  rw [component?]
  split
  · exact iff_of_true rfl ‹_›
  · refine iff_of_false ?_ ‹_›
    split <;> exact Option.some_ne_none _

theorem component?_up : component? ['.', '.'] = some .up := by decide

/-- A piece that has a component and is not `..` is a name. -/
theorem component?_eq_name {piece : Text} (h : ¬(piece = [] ∨ piece = ['.']))
    (hup : piece ≠ ['.', '.']) : component? piece = some (.name piece) := by
  rw [component?, if_neg h, if_neg hup]

/-- A path that is not absolute may begin with a dot, which is a component of its own. -/
theorem pieces_of_relative {p : Path} (h : p.isAbsolute = false) :
    p.pieces = match Text.splitAt '/' p with
      | ['.'] :: pieces => (some .here, pieces)
      | pieces => (none, pieces) := by
  unfold pieces
  split
  · cases h
  · rfl

/-- What begins a path. -/
theorem start_eq (p : Path) :
    p.pieces.1 = if p.isAbsolute then some .root
      else if (Text.splitAt '/' p).head? = some ['.'] then some .here else none := by
  cases habsolute : p.isAbsolute with
  | true =>
    obtain ⟨t, rfl⟩ : ∃ t, p = '/' :: t := List.head?_eq_some_iff.1 (of_decide_eq_true habsolute)
    rfl
  | false =>
    obtain ⟨piece, pieces, hp⟩ := Text.exists_splitAt_eq_cons '/' p
    rw [pieces_of_relative habsolute, hp, if_neg Bool.false_ne_true, List.head?_cons]
    by_cases hhere : piece = ['.']
    · rw [hhere]
      rfl
    · rw [if_neg fun h ↦ hhere (Option.some.inj h)]
      split
      · rename_i heq
        exact absurd (List.cons.inj heq).1 hhere
      · rfl

/-- **The components of a path** are what begins it and the components of its pieces. -/
theorem components_eq (p : Path) :
    p.components = p.pieces.1.toList ++ (Text.splitAt '/' p).filterMap component? := by
  have hpieces : p.pieces.2.filterMap component? = (Text.splitAt '/' p).filterMap component? := by
    cases habsolute : p.isAbsolute with
    | true =>
      obtain ⟨t, rfl⟩ : ∃ t, p = '/' :: t :=
        List.head?_eq_some_iff.1 (of_decide_eq_true habsolute)
      rw [Text.splitAt_cons_self]
      rfl
    | false =>
      rw [pieces_of_relative habsolute]
      split
      · rename_i hp
        rw [hp]
        rfl
      · rfl
  exact congrArg (p.pieces.1.toList ++ ·) hpieces

/-- All components pass a test that names pass and `/` and `..` do not, if the path is relative, has
no piece `..`, and begins with `.` only if that passes as well. -/
theorem all_components_iff {f : Component → Bool} (hroot : f .root = false) (hup : f .up = false)
    (hname : ∀ piece, f (.name piece) = true) (p : Path) :
    p.components.all f = true ↔ p.isAbsolute = false ∧ ['.', '.'] ∉ Text.splitAt '/' p ∧
      ((Text.splitAt '/' p).head? = some ['.'] → f .here = true) := by
  -- A root or a dot at the start is a component of its own.
  have hstart : p.pieces.1.toList.all f = true ↔ p.isAbsolute = false ∧
      ((Text.splitAt '/' p).head? = some ['.'] → f .here = true) := by
    rw [start_eq]
    cases p.isAbsolute with
    | true => simp [hroot]
    | false => by_cases hhere : (Text.splitAt '/' p).head? = some ['.'] <;> simp [hhere]
  -- All other components come from pieces.
  have hpieces : ((Text.splitAt '/' p).filterMap component?).all f = true ↔
      ['.', '.'] ∉ Text.splitAt '/' p := by
    rw [List.all_eq_true]
    constructor
    · intro hall hmem
      have hfails := hall .up (List.mem_filterMap.2 ⟨_, hmem, component?_up⟩)
      rw [hup] at hfails
      cases hfails
    · intro hnot component hmem
      obtain ⟨piece, hpiece, hcomponent⟩ := List.mem_filterMap.1 hmem
      have hne : piece ≠ ['.', '.'] := fun heq ↦ hnot (heq ▸ hpiece)
      have hsome : ¬(piece = [] ∨ piece = ['.']) := fun hidle ↦ by
        rw [component?_eq_none_iff.2 hidle] at hcomponent
        cases hcomponent
      rw [component?_eq_name hsome hne] at hcomponent
      cases hcomponent
      exact hname piece
  rw [components_eq, List.all_append, Bool.and_eq_true, hstart, hpieces]
  exact ⟨fun ⟨⟨habsolute, hhere⟩, hnot⟩ ↦ ⟨habsolute, hnot, hhere⟩,
    fun ⟨habsolute, hnot, hhere⟩ ↦ ⟨⟨habsolute, hhere⟩, hnot⟩⟩

/-! ### Joining -/

/-- The pieces of the path that are not idle; names, if there is no `..` among them. -/
def names (p : Path) : List Text :=
  (Text.splitAt '/' p).filter fun piece ↦ !(piece = [] ∨ piece = ['.'])

/-- The names of a path that never leads up are names of files. -/
theorem fileName_of_mem_names {p : Path} (h : ['.', '.'] ∉ Text.splitAt '/' p) {piece : Text}
    (hmem : piece ∈ p.names) : FileName piece := by
  obtain ⟨hpiece, hnot⟩ := List.mem_filter.1 hmem
  simp only [Bool.not_eq_true', decide_eq_false_iff_not, not_or] at hnot
  exact ⟨hnot.1, hnot.2, fun heq ↦ h (heq ▸ hpiece), Text.notMem_of_mem_splitAt hpiece⟩

/-- Without a piece that leads up, the components are the names. -/
theorem filterMap_component? {pieces : List Text} (h : ['.', '.'] ∉ pieces) :
    pieces.filterMap component? =
      (pieces.filter fun piece ↦ !(piece = [] ∨ piece = ['.'])).map .name := by
  induction pieces with
  | nil => rfl
  | cons piece pieces ih =>
    rw [List.mem_cons, not_or] at h
    by_cases hidle : piece = [] ∨ piece = ['.']
    · rw [List.filterMap_cons_none (component?_eq_none_iff.2 hidle),
        List.filter_cons_of_neg (by simp [hidle]), ih h.2]
    · rw [List.filterMap_cons_some (component?_eq_name hidle (Ne.symm h.1)),
        List.filter_cons_of_pos (by simp [hidle]), List.map_cons, ih h.2]

/-- A joined path is the first path up to a slash, and the second one behind it. -/
theorem exists_join_eq {base child : Path} (hrelative : child.isAbsolute = false)
    (hbase : base ≠ []) :
    ∃ above, base.join child = above ++ '/' :: child ∧
      (above ++ ['/']).components = base.components := by
  rw [join, hrelative, if_neg Bool.false_ne_true]
  by_cases hslash : base.getLast? = some '/'
  · obtain ⟨above, rfl⟩ := List.getLast?_eq_some_iff.1 hslash
    refine ⟨above, ?_, rfl⟩
    rw [if_pos (.inr hslash), List.append_assoc, List.singleton_append]
  · refine ⟨base, if_neg fun h ↦ h.elim hbase hslash, ?_⟩
    -- A slash at the end adds an empty piece, which has no component.
    obtain ⟨piece, rest, hpieces⟩ := Text.exists_splitAt_eq_cons '/' base
    obtain ⟨c, base, rfl⟩ := List.exists_cons_of_ne_nil hbase
    have hsplit : Text.splitAt '/' (c :: base ++ ['/']) = piece :: rest ++ [[]] := by
      rw [Text.splitAt_append_mark, hpieces]
      rfl
    have hstart : (pieces (c :: base ++ ['/'])).1 = (pieces (c :: base)).1 := by
      rw [start_eq, start_eq, hsplit, hpieces]
      rfl
    rw [components_eq, components_eq, hstart, hsplit, hpieces, List.filterMap_append]
    exact congrArg _ (List.append_nil _)

/-- What stands behind a slash adds the components of its own pieces. -/
theorem components_append_slash (above child : Path) :
    (above ++ '/' :: child).components =
      (above ++ ['/']).components ++ (Text.splitAt '/' child).filterMap component? := by
  obtain ⟨piece, rest, hpieces⟩ := Text.exists_splitAt_eq_cons '/' above
  have hstart : (pieces (above ++ '/' :: child)).1 = (pieces (above ++ ['/'])).1 := by
    rw [start_eq, start_eq, Text.splitAt_append_mark, Text.splitAt_append_mark, hpieces]
    cases above <;> rfl
  rw [components_eq, components_eq, hstart, Text.splitAt_append_mark, Text.splitAt_append_mark,
    List.filterMap_append, List.filterMap_append]
  simp [Text.splitAt, component?]

/-- **Joining adds names**: a relative path without a piece `..`, taken from another path, adds its
names to the components of that path. If there is nothing in front of it, it must not begin with
`.`, which would be a component as well. -/
theorem components_join {base child : Path} (hrelative : child.isAbsolute = false)
    (hup : ['.', '.'] ∉ Text.splitAt '/' child)
    (hhere : base = [] → (Text.splitAt '/' child).head? ≠ some ['.']) :
    (base.join child).components = base.components ++ child.names.map .name := by
  rw [names, ← filterMap_component? hup]
  by_cases hbase : base = []
  · have hjoin : base.join child = child := by
      rw [join, hrelative, if_neg Bool.false_ne_true, if_pos (.inl hbase), hbase, List.nil_append]
    have hempty : base.components = [] := by rw [hbase]; rfl
    rw [hjoin, hempty, components_eq, start_eq, hrelative, if_neg Bool.false_ne_true,
      if_neg (hhere hbase)]
    rfl
  · obtain ⟨above, hjoin, habove⟩ := exists_join_eq hrelative hbase
    rw [hjoin, components_append_slash, habove]

/-- The path has the components of the folder, and at least one name behind them. -/
def Below (folder path : Path) : Prop :=
  ∃ names : List Text, names ≠ [] ∧ (∀ name ∈ names, FileName name) ∧
    path.components = folder.components ++ names.map .name

/-- A path that is not absolute, never leads up and has a name leads below the base it is joined
to. -/
theorem below_join {base child : Path} (hrelative : child.isAbsolute = false)
    (hup : ['.', '.'] ∉ Text.splitAt '/' child)
    (hhere : base = [] → (Text.splitAt '/' child).head? ≠ some ['.']) (hnames : child.names ≠ []) :
    Below base (base.join child) :=
  ⟨child.names, hnames, fun _ ↦ fileName_of_mem_names hup, components_join hrelative hup hhere⟩

/-- A path without names has idle pieces only. -/
theorem component?_of_names_eq_nil {p : Path} (h : p.names = []) {piece : Text}
    (hpiece : piece ∈ Text.splitAt '/' p) : component? piece = none := by
  have hidle := List.filter_eq_nil_iff.1 h piece hpiece
  rw [Bool.not_eq_true, Bool.not_eq_false', decide_eq_true_eq] at hidle
  exact component?_eq_none_iff.2 hidle

end Path

namespace Disk

/-! ### Paths that stay where they are -/

/-- Pieces are walked one after the other, so that a walk can be cut in two. -/
theorem walk_append (d : Disk) (location : Location) (pieces pieces' : List Text) :
    d.walk location (pieces ++ pieces') =
      (d.walk location pieces).bind fun location ↦ d.walk location pieces' := by
  induction pieces generalizing location with
  | nil => rfl
  | cons piece pieces ih =>
    rw [List.cons_append, walk, walk]
    split
    · rfl
    · rfl
    · split
      · exact ih _
      · split
        · rfl
        · exact ih _
      · exact ih _

/-- Idle pieces lead to the folder that they start from. -/
theorem at?_of_walk_idle {d : Disk} {location location' : Location} {pieces : List Text}
    (hne : pieces ≠ []) (hidle : ∀ piece ∈ pieces, Path.component? piece = none)
    (h : d.walk location pieces = .ok location') : d.at? location' = some .folder := by
  induction pieces with
  | nil => exact absurd rfl hne
  | cons piece pieces ih =>
    rw [List.forall_mem_cons] at hidle
    rw [walk, hidle.1] at h
    cases hat : d.at? location with
    | none => rw [hat] at h; cases h
    | some entry =>
      rw [hat] at h
      cases entry with
      | file content => cases h
      | folder =>
        by_cases hpieces : pieces = []
        · subst hpieces
          cases h
          exact hat
        · exact ih hpieces hidle.2 h

/-- A path that ends in idle pieces behind a slash does not lead to a file. -/
theorem isFile_eq_false_of_idle (d : Disk) (above : Path) {t : Path}
    (hidle : ∀ piece ∈ Text.splitAt '/' t, Path.component? piece = none) :
    d.isFile (above ++ '/' :: t) = false := by
  obtain ⟨piece, pieces, ht⟩ := Text.exists_splitAt_eq_cons '/' t
  cases hlocate : d.locate (above ++ '/' :: t) with
  | error err => rw [isFile, find?, hlocate]
  | ok location =>
    suffices hfolder : d.at? location = some .folder by
      rw [isFile, find?, hlocate]
      simp [hfolder]
    rw [locate] at hlocate
    split at hlocate
    · cases hlocate
    · split at hlocate
      · cases hlocate
      · rw [Text.splitAt_append_mark, walk_append] at hlocate
        -- The walk reaches a location before the idle pieces, and they do not leave it.
        rcases hwalk : d.walk _ (Text.splitAt '/' above) with err | between <;>
          rw [hwalk] at hlocate
        · cases hlocate
        · exact at?_of_walk_idle (ht ▸ List.cons_ne_nil piece pieces) hidle hlocate

end Disk

end TagTemplate
