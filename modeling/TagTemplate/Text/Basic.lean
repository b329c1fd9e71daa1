/-!
# Text

Every text of the library (templates, tags, keys, values, paths) is the list of its characters.
Tag syntax is read one character at a time, so the recursion of every reader is recursion on the
list, and its laws are inductions on it.

Lengths and offsets that callers see are counted in UTF-8 bytes (`Text.size`). A text is cut between
characters only: the one operation that cuts at an offset in bytes has no answer where the offset
falls inside of a character. The order of texts is the lexicographic order of their code points,
which is also the order of their UTF-8 bytes.
-/

namespace TagTemplate

/-- A text is the list of its characters. -/
abbrev Text := List Char

namespace Text

instance instLawfulBEq : LawfulBEq Text := inferInstance

/-- The number of UTF-8 bytes of the text. -/
def size : Text → Nat
  | [] => 0
  | c :: t => c.utf8Size + size t

@[simp] theorem size_nil : size [] = 0 := rfl

@[simp] theorem size_cons (c : Char) (t : Text) : size (c :: t) = c.utf8Size + size t := rfl

@[simp] theorem size_append (s t : Text) : size (s ++ t) = size s + size t := by
  induction s with
  | nil => simp
  | cons c s ih => simp [ih, Nat.add_assoc]

theorem size_pos {t : Text} (h : t ≠ []) : 0 < size t := by
  obtain ⟨c, t, rfl⟩ := List.exists_cons_of_ne_nil h
  have := c.utf8Size_pos
  rw [size_cons]
  omega

/-- Whether the text begins with `start`. -/
def startsWith (t start : Text) : Bool := start.isPrefixOf t

/-- What follows `start` in a text that begins with it. -/
def after? (t start : Text) : Option Text :=
  if t.startsWith start then some (t.drop start.length) else none

/-- The texts before and after the first occurrence of `mark`. -/
def cut? (mark : Text) : Text → Option (Text × Text)
  | [] => if mark.isEmpty then some ([], []) else none
  | c :: t =>
    if startsWith (c :: t) mark then some ([], (c :: t).drop mark.length)
    else (cut? mark t).map fun (before, rest) => (c :: before, rest)

/-- Joins texts with `mark` between neighbours. -/
def join (mark : Text) : List Text → Text
  | [] => []
  | [t] => t
  | t :: ts => t ++ mark ++ join mark ts

/-- The pieces of the text between the characters that are `mark`: one more than there are marks. -/
def splitAt (mark : Char) : Text → List Text
  | [] => [[]]
  | c :: t =>
    if c = mark then [] :: splitAt mark t
    else match splitAt mark t with
      | [] => [[c]]
      | piece :: pieces => (c :: piece) :: pieces

/-- The decimal digits of a natural number. -/
def ofNat (n : Nat) : Text := Nat.toDigits 10 n

theorem startsWith_iff {t start : Text} : t.startsWith start = true ↔ ∃ rest, t = start ++ rest := by
  rw [startsWith, List.isPrefixOf_iff_prefix]
  exact ⟨fun ⟨rest, h⟩ => ⟨rest, h.symm⟩, fun ⟨rest, h⟩ => ⟨rest, h.symm⟩⟩

theorem after?_append (start rest : Text) : after? (start ++ rest) start = some rest := by
  rw [after?, if_pos (startsWith_iff.2 ⟨rest, rfl⟩), List.drop_left]

theorem after?_eq_none_iff {t start : Text} :
    t.after? start = none ↔ ∀ rest, t ≠ start ++ rest := by
  rw [after?, ite_eq_right_iff, ← not_exists, ← startsWith_iff]
  exact forall_congr' fun _ ↦ iff_of_false (Option.some_ne_none _) id

theorem drop_of_startsWith {t start : Text} (h : t.startsWith start = true) :
    start ++ t.drop start.length = t := by
  obtain ⟨rest, rfl⟩ := startsWith_iff.1 h
  simp

/-- Cutting loses nothing: the mark stands between the two sides. -/
theorem eq_append_of_cut? {mark t before rest : Text} (h : cut? mark t = some (before, rest)) :
    t = before ++ mark ++ rest := by
  induction t generalizing before with
  | nil =>
    cases mark with
    | nil => simp [cut?] at h; simp [h]
    | cons _ _ => simp [cut?] at h
  | cons c t ih =>
    rw [cut?] at h
    split at h
    · rename_i hs
      simp only [Option.some.injEq, Prod.mk.injEq] at h
      obtain ⟨rfl, rfl⟩ := h
      simp [drop_of_startsWith hs]
    · obtain ⟨⟨b, r⟩, hb, he⟩ := Option.map_eq_some_iff.1 h
      simp only [Prod.mk.injEq] at he
      obtain ⟨rfl, rfl⟩ := he
      simp [ih hb]

/-! ### Cutting at a mark -/

section SplitAt

variable {mark : Char}

theorem splitAt_cons_self (t : Text) : splitAt mark (mark :: t) = [] :: splitAt mark t := by
  rw [splitAt, if_pos rfl]

theorem splitAt_cons_of_ne {c : Char} (hc : c ≠ mark) {t piece : Text} {pieces : List Text}
    (h : splitAt mark t = piece :: pieces) : splitAt mark (c :: t) = (c :: piece) :: pieces := by
  rw [splitAt, if_neg hc, h]

theorem exists_splitAt_eq_cons (mark : Char) (t : Text) :
    ∃ piece pieces, splitAt mark t = piece :: pieces := by
  induction t with
  | nil => exact ⟨[], [], rfl⟩
  | cons c t ih =>
    obtain ⟨piece, pieces, h⟩ := ih
    by_cases hc : c = mark
    · subst hc
      exact ⟨[], splitAt c t, splitAt_cons_self t⟩
    · exact ⟨c :: piece, pieces, splitAt_cons_of_ne hc h⟩

theorem splitAt_of_notMem {t : Text} (h : mark ∉ t) : splitAt mark t = [t] := by
  induction t with
  | nil => rfl
  | cons c t ih =>
    rw [List.mem_cons, not_or] at h
    exact splitAt_cons_of_ne (Ne.symm h.1) (ih h.2)

/-- A mark between two texts separates their pieces. -/
theorem splitAt_append_mark (s t : Text) :
    splitAt mark (s ++ mark :: t) = splitAt mark s ++ splitAt mark t := by
  induction s with
  | nil => exact splitAt_cons_self t
  | cons c s ih =>
    by_cases hc : c = mark
    · subst hc
      rw [List.cons_append, splitAt_cons_self, splitAt_cons_self, ih, List.cons_append]
    · obtain ⟨piece, pieces, hs⟩ := exists_splitAt_eq_cons mark s
      rw [hs, List.cons_append] at ih
      rw [List.cons_append, splitAt_cons_of_ne hc ih, splitAt_cons_of_ne hc hs, List.cons_append]

/-- A text without the mark, put behind another one, makes the last piece longer. -/
theorem exists_splitAt_append (mark : Char) (s : Text) :
    ∃ front last, splitAt mark s = front ++ [last] ∧
      ∀ t, mark ∉ t → splitAt mark (s ++ t) = front ++ [last ++ t] := by
  induction s with
  | nil => exact ⟨[], [], rfl, fun t ht ↦ splitAt_of_notMem ht⟩
  | cons c s ih =>
    obtain ⟨front, last, hs, happend⟩ := ih
    by_cases hc : c = mark
    · subst hc
      refine ⟨[] :: front, last, ?_, fun t ht ↦ ?_⟩
      · rw [splitAt_cons_self, hs, List.cons_append]
      · rw [List.cons_append, splitAt_cons_self, happend t ht, List.cons_append]
    · cases front with
      | nil => exact ⟨[], c :: last, splitAt_cons_of_ne hc hs,
          fun t ht ↦ splitAt_cons_of_ne hc (happend t ht)⟩
      | cons piece front => exact ⟨(c :: piece) :: front, last, splitAt_cons_of_ne hc hs,
          fun t ht ↦ splitAt_cons_of_ne hc (happend t ht)⟩

/-- The mark is in none of the pieces. -/
theorem notMem_of_mem_splitAt {t piece : Text} (h : piece ∈ splitAt mark t) : mark ∉ piece := by
  induction t generalizing piece with
  | nil =>
    rw [List.mem_singleton.1 h]
    exact List.not_mem_nil
  | cons c t ih =>
    by_cases hc : c = mark
    · subst hc
      rw [splitAt_cons_self] at h
      rcases List.mem_cons.1 h with rfl | h
      · exact List.not_mem_nil
      · exact ih h
    · obtain ⟨first, pieces, ht⟩ := exists_splitAt_eq_cons mark t
      rw [ht] at ih
      rw [splitAt_cons_of_ne hc ht] at h
      rcases List.mem_cons.1 h with rfl | h
      · rw [List.mem_cons, not_or]
        exact ⟨Ne.symm hc, ih List.mem_cons_self⟩
      · exact ih (List.mem_cons_of_mem _ h)

end SplitAt

/-! ### Cutting at offsets in bytes -/

/-- The text in front of an offset in bytes and the text behind it, unless the offset falls inside
of a character or beyond the end. -/
def cutAt? : (offset : Nat) → Text → Option (Text × Text)
  | 0, t => some ([], t)
  | _ + 1, [] => none
  | offset + 1, c :: t =>
    if offset + 1 < c.utf8Size then none
    else (cutAt? (offset + 1 - c.utf8Size) t).map fun (before, rest) ↦ (c :: before, rest)

/-- **A text is cut** behind each of its beginnings, at the size of that, and nowhere else. -/
theorem cutAt?_eq_some_iff {offset : Nat} {t before rest : Text} :
    cutAt? offset t = some (before, rest) ↔ t = before ++ rest ∧ before.size = offset := by
  fun_induction cutAt? offset t generalizing before with
  | case1 t =>
    have hnil : before.size = 0 ↔ before = [] :=
      ⟨fun hsize ↦ Decidable.byContradiction fun hne ↦ Nat.ne_of_gt (size_pos hne) hsize,
        fun h ↦ h ▸ rfl⟩
    rw [hnil, Option.some.injEq, Prod.mk.injEq]
    constructor
    · rintro ⟨rfl, rfl⟩
      exact ⟨rfl, rfl⟩
    · rintro ⟨rfl, rfl⟩
      exact ⟨rfl, rfl⟩
  | case2 offset =>
    refine iff_of_false nofun ?_
    rintro ⟨hnil, hsize⟩
    rw [(List.nil_eq_append_iff.1 hnil).1] at hsize
    cases hsize
  | case3 offset c t hlt =>
    refine iff_of_false nofun ?_
    rintro ⟨hbegins, hsize⟩
    rcases before with - | ⟨b, before⟩
    · cases hsize
    · obtain ⟨rfl, -⟩ := List.cons.inj hbegins
      rw [size_cons] at hsize
      omega
  | case4 offset c t hle ih =>
    rw [Option.map_eq_some_iff]
    constructor
    · rintro ⟨⟨before', rest'⟩, hcut, hsame⟩
      obtain ⟨rfl, rfl⟩ := Prod.mk.inj hsame
      obtain ⟨rfl, hsize⟩ := ih.1 hcut
      refine ⟨rfl, ?_⟩
      rw [size_cons]
      omega
    · rintro ⟨hbegins, hsize⟩
      rcases before with - | ⟨b, before⟩
      · cases hsize
      · obtain ⟨rfl, ht⟩ := List.cons.inj hbegins
        rw [size_cons] at hsize
        exact ⟨(before, rest), ih.2 ⟨ht, by omega⟩, rfl⟩

/-- Something is consumed by a cut behind the start. -/
theorem length_lt_of_cutAt? {offset : Nat} {t before rest : Text}
    (h : cutAt? offset t = some (before, rest)) (hpos : 0 < offset) : rest.length < t.length := by
  obtain ⟨rfl, rfl⟩ := cutAt?_eq_some_iff.1 h
  rw [List.length_append]
  rcases before with - | ⟨c, before⟩
  · cases hpos
  · rw [List.length_cons]
    omega

end Text

end TagTemplate
