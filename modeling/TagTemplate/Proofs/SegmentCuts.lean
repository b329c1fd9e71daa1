import Mathlib.Algebra.Group.Nat.Even
import TagTemplate.Proofs.Trimming
import TagTemplate.Text.SegmentPass

/-!
# The places where splitting cuts

A text is cut at the places where the delimiter stands behind an even number of quotes, counted from
the start of the text (`IsCut`). What lies between consecutive places, and in front of the first and
behind the last one, are the pieces that splitting finds (`pieces_eq_between`). Of a delimiter that
is also the quote no occurrence is such a place, so the text is one piece.

The segments are these pieces, trimmed, without the ones of which nothing is left. The pass over the
text finds them without knowing the pieces. What carries its induction is that the text in front of
its offset ends in what it has read of the piece that is still open, and that this piece begins at
the offset that the pass keeps (`SegmentPass.run?_eq`). So all slices are between characters, and
the pass has an answer. A segment that is empty is not counted, so the limit takes the first of the
segments that the pass would find without it.
-/

namespace TagTemplate.Text

variable {delimiter quote : Char}

/-! ### Places -/

/-- Whether the text is cut at the place: the delimiter stands there, it is not the quote, and the
number of quotes in front of it is even. -/
def IsCut (delimiter quote : Char) (t : Text) (place : ℕ) : Prop :=
  t[place]? = some delimiter ∧ delimiter ≠ quote ∧ Even ((t.take place).count quote)

instance (t : Text) (place : ℕ) : Decidable (IsCut delimiter quote t place) :=
  inferInstanceAs (Decidable (_ ∧ _ ∧ _))

/-- The places behind `before` where the text is cut, in ascending order. -/
def cutsBehind (delimiter quote : Char) (before rest : Text) : List ℕ :=
  (List.range' before.length rest.length).filter (IsCut delimiter quote (before ++ rest) ·)

/-- The places where the text is cut, in ascending order. -/
def cuts (delimiter quote : Char) (t : Text) : List ℕ :=
  (List.range t.length).filter (IsCut delimiter quote t ·)

/-- The texts from `start` to the first place, between consecutive places, and behind the last
one. The characters at the places belong to none of them. -/
def between (t : Text) : (start : ℕ) → (places : List ℕ) → List Text
  | start, [] => [t.drop start]
  | start, place :: places => (t.take place).drop start :: between t (place + 1) places

theorem cuts_eq (t : Text) : cuts delimiter quote t = cutsBehind delimiter quote [] t := by
  rw [cuts, List.range_eq_range']
  rfl

/-- Whether there is a cut at a place is told by the character there and by the quotes before it. -/
theorem isCut_length_iff (before : Text) (c : Char) (rest : Text) :
    IsCut delimiter quote (before ++ c :: rest) before.length ↔
      c = delimiter ∧ delimiter ≠ quote ∧ Even (before.count quote) := by
  rw [IsCut, List.getElem?_append_right (Nat.le_refl _), Nat.sub_self, List.getElem?_cons_zero,
    Option.some.injEq, List.take_left]

/-- The cuts behind a place are that place, if it is one, and the cuts behind the next. -/
theorem cutsBehind_cons (before : Text) (c : Char) (rest : Text) :
    cutsBehind delimiter quote before (c :: rest) =
      if c = delimiter ∧ delimiter ≠ quote ∧ Even (before.count quote) then
        before.length :: cutsBehind delimiter quote (before ++ [c]) rest
      else cutsBehind delimiter quote (before ++ [c]) rest := by
  have hlength : (before ++ [c]).length = before.length + 1 := List.length_append
  have hsplit : (before ++ [c]) ++ rest = before ++ c :: rest := by
    rw [List.append_assoc, List.singleton_append]
  simp only [cutsBehind, List.length_cons, List.range'_succ, List.filter_cons, hlength, hsplit,
    decide_eq_true_eq, isCut_length_iff]

/-- What lies between the cuts behind `before` are the pieces of the rest. The first of them is
still open: it has begun in `before`. -/
theorem between_cutsBehind {quoted : Bool} {before : Text} (rest : Text) {start : ℕ}
    (hquoted : quoted = false ↔ Even (before.count quote)) (hstart : start ≤ before.length) :
    between (before ++ rest) start (cutsBehind delimiter quote before rest) =
      (pieces delimiter quote quoted rest).modifyHead (before.drop start ++ ·) := by
  induction rest generalizing quoted before start with
  | nil =>
    rw [List.append_nil, pieces, List.modifyHead_cons, List.append_nil]
    rfl
  | cons c rest ih =>
    have hsplit : before ++ c :: rest = (before ++ [c]) ++ rest := by
      rw [List.append_assoc, List.singleton_append]
    have hlength : (before ++ [c]).length = before.length + 1 := List.length_append
    -- A character that does not cut is read into the piece that is open.
    have hread {quoted' : Bool} (h : quoted' = false ↔ Even ((before ++ [c]).count quote)) :
        between (before ++ c :: rest) start (cutsBehind delimiter quote (before ++ [c]) rest) =
          ((pieces delimiter quote quoted' rest).modifyHead (c :: ·)).modifyHead
            (before.drop start ++ ·) := by
      rw [hsplit, ih h (by omega), List.drop_append_of_le_length hstart, List.modifyHead_modifyHead]
      simp only [Function.comp_def, List.append_assoc, List.singleton_append]
    rw [cutsBehind_cons, pieces]
    by_cases hquote : c = quote
    · subst hquote
      have hcount : (before ++ [c]).count c = before.count c + 1 := by
        rw [List.count_append, List.count_singleton_self]
      rw [if_neg fun h ↦ h.2.1 h.1.symm, if_pos rfl]
      refine hread ?_
      rw [hcount, Nat.even_add_one, ← hquoted]
      cases quoted <;> decide
    · have hcount : (before ++ [c]).count quote = before.count quote := by
        rw [List.count_append, List.count_singleton, if_neg (by simpa using hquote), Nat.add_zero]
      rw [if_neg hquote]
      by_cases hcut : c = delimiter ∧ quoted = false
      · obtain ⟨rfl, rfl⟩ := hcut
        have hopen : (pieces c quote false rest).modifyHead
            ((before ++ [c]).drop (before.length + 1) ++ ·) = pieces c quote false rest := by
          rw [← hlength, List.drop_length]
          exact congrFun List.modifyHead_id _
        rw [if_pos ⟨rfl, hquote, hquoted.1 rfl⟩, if_pos ⟨rfl, rfl⟩, between, List.take_left, hsplit,
          ih (by rw [hcount, hquoted]) (Nat.le_of_eq hlength.symm), hopen, List.modifyHead_cons,
          List.append_nil]
      · rw [if_neg fun h ↦ hcut ⟨h.1, hquoted.2 h.2.2⟩, if_neg hcut]
        exact hread (by rw [hcount, hquoted])

/-- **The pieces of a text** are what lies between its cuts. -/
theorem pieces_eq_between (t : Text) :
    pieces delimiter quote false t = t.between 0 (cuts delimiter quote t) := by
  have heven : false = false ↔ Even (([] : Text).count quote) :=
    iff_of_true rfl (by rw [List.count_nil]; exact ⟨0, rfl⟩)
  calc pieces delimiter quote false t
      = (pieces delimiter quote false t).modifyHead (([] : Text).drop 0 ++ ·) :=
        (congrFun List.modifyHead_id _).symm
    _ = t.between 0 (cutsBehind delimiter quote [] t) :=
        (between_cutsBehind t heven (Nat.le_refl 0)).symm
    _ = t.between 0 (cuts delimiter quote t) := by rw [cuts_eq]

/-! ### The pass -/

/-- The first few of the segments, or all of them if there is no limit. -/
def limited (limit : ℕ) (xs : List Text) : List Text := if limit = 0 then xs else xs.take limit

theorem limited_of_room {limit : ℕ} {xs : List Text} (h : limit = 0 ∨ xs.length ≤ limit) :
    limited limit xs = xs := by
  rw [limited]
  split
  · rfl
  · rename_i hlimit
    exact List.take_of_length_le (h.resolve_left hlimit)

/-- Once the limit is reached, nothing more is kept. -/
theorem limited_append_of_full {limit : ℕ} {xs : List Text} (hpos : 0 < limit)
    (hfull : xs.length = limit) (ys : List Text) : limited limit (xs ++ ys) = xs := by
  rw [limited, if_neg (Nat.ne_of_gt hpos), ← hfull, List.take_left]

namespace SegmentPass

variable {limit offset : ℕ} {t before opened rest : Text} {pass : SegmentPass} {c : Char}

/-- Where a pass stands: in front of its offset, the text ends in what has been read of the open
piece, and the pass keeps the offset at which that begins. -/
structure Reads (t before opened rest : Text) (offset : ℕ) (pass : SegmentPass) : Prop where
  text_eq : t = before ++ (opened ++ rest)
  start_eq : pass.start = before.size
  offset_eq : offset = before.size + opened.size

namespace Reads

theorem initial (t : Text) : Reads t [] [] t 0 .initial := ⟨rfl, rfl, rfl⟩

/-- What has been read of the open piece can be sliced out. -/
theorem slice?_eq (h : Reads t before opened rest offset pass) :
    t.slice? pass.start offset = some opened := by
  rw [h.text_eq, h.start_eq, h.offset_eq, slice?_append]

theorem size_eq (h : Reads t before opened [] offset pass) : t.size = offset := by
  rw [h.text_eq, h.offset_eq, List.append_nil, size_append]

/-- A character that does not cut is read into the open piece. -/
theorem read (h : Reads t before opened (c :: rest) offset pass) (quoted : Bool) :
    Reads t before (opened ++ [c]) rest (offset + c.utf8Size) { pass with quoted := quoted } where
  text_eq := by rw [h.text_eq, List.append_assoc opened, List.singleton_append]
  start_eq := h.start_eq
  offset_eq := by rw [h.offset_eq, size_append, size_cons, size_nil, Nat.add_zero, Nat.add_assoc]

/-- Behind a character that cuts, the next piece begins. -/
theorem next (h : Reads t before opened (c :: rest) offset pass) (quoted : Bool)
    (found : List Text) :
    Reads t (before ++ opened ++ [c]) [] rest (offset + c.utf8Size)
      ⟨offset + c.utf8Size, quoted, found⟩ := by
  have hsize : (before ++ opened ++ [c]).size = offset + c.utf8Size := by
    rw [size_append, size_append, size_cons, size_nil, Nat.add_zero, h.offset_eq]
  refine ⟨?_, hsize.symm, hsize.symm⟩
  rw [h.text_eq, List.append_assoc, List.append_assoc, List.singleton_append, List.nil_append]

end Reads

/-- The finished segments and the one of a piece, if that is not empty. -/
def keep (found : List Text) (piece : Text) : List Text :=
  if piece.trim = [] then found else found ++ [piece.trim]

/-- To keep a segment is to tidy it with those that follow. -/
theorem keep_append_tidied (found : List Text) (x : Text) (xs : List Text) :
    keep found x ++ tidied xs = found ++ tidied (x :: xs) := by
  rw [keep]
  split
  · rename_i hempty
    rw [tidied_cons_of_nil hempty]
  · rename_i hempty
    rw [tidied_cons_of_ne_nil hempty, ← List.append_cons]

theorem length_keep_le (found : List Text) (x : Text) :
    (keep found x).length ≤ found.length + 1 := by
  rw [keep]
  split
  · exact Nat.le_succ _
  · rw [List.length_append, List.length_singleton]

/-- At the end of the text the open piece is finished. -/
theorem run?_nil (h : Reads t before opened [] offset pass) :
    run? delimiter quote limit t offset [] pass = some (keep pass.found opened) := by
  rw [run?, h.size_eq, h.slice?_eq, keep]
  show (if opened.trim = [] then some pass.found else some (pass.found ++ [opened.trim])) = _
  split <;> rfl

/-- Where the text is cut the open piece is finished, and the pass goes on if there is room for more
segments. -/
theorem run?_cut (h : Reads t before opened (delimiter :: rest) offset pass)
    (hquote : delimiter ≠ quote) (hquoted : pass.quoted = false)
    (hroom : limit = 0 ∨ pass.found.length < limit) :
    run? delimiter quote limit t offset (delimiter :: rest) pass =
      if 0 < limit ∧ limit ≤ (keep pass.found opened).length then some (keep pass.found opened)
      else run? delimiter quote limit t (offset + delimiter.utf8Size) rest
        ⟨offset + delimiter.utf8Size, false, keep pass.found opened⟩ := by
  rw [run?, if_neg hquote, if_neg (by simp [hquoted]), h.slice?_eq, keep]
  show (if opened.trim = [] then run? delimiter quote limit t (offset + delimiter.utf8Size) rest
        ⟨offset + delimiter.utf8Size, pass.quoted, pass.found⟩
      else if 0 < limit ∧ limit ≤ (pass.found ++ [opened.trim]).length then
        some (pass.found ++ [opened.trim])
      else run? delimiter quote limit t (offset + delimiter.utf8Size) rest
        ⟨offset + delimiter.utf8Size, pass.quoted, pass.found ++ [opened.trim]⟩) = _
  rw [hquoted]
  split
  · -- An empty segment is not counted, so there is as much room as before.
    rw [if_neg (by omega)]
  · rfl

/-- **What a pass answers**: the segments that it has finished and the ones of the pieces that are
left, as many as the limit allows. -/
theorem run?_eq (h : Reads t before opened rest offset pass)
    (hroom : limit = 0 ∨ pass.found.length < limit) :
    run? delimiter quote limit t offset rest pass =
      some (limited limit (pass.found ++
        tidied ((pieces delimiter quote pass.quoted rest).modifyHead (opened ++ ·)))) := by
  induction rest generalizing before opened offset pass with
  | nil =>
    have hkeep := length_keep_le pass.found opened
    have hall : limited limit (keep pass.found opened) = keep pass.found opened :=
      limited_of_room (by omega)
    rw [run?_nil h, pieces, List.modifyHead_cons, List.append_nil, ← keep_append_tidied]
    show some (keep pass.found opened) = some (limited limit (keep pass.found opened ++ []))
    rw [List.append_nil, hall]
  | cons c rest ih =>
    -- A character that cuts nothing is added to the piece that is open.
    have hread (quoted : Bool) :
        run? delimiter quote limit t (offset + c.utf8Size) rest { pass with quoted := quoted } =
          some (limited limit (pass.found ++
            tidied (((pieces delimiter quote quoted rest).modifyHead (c :: ·)).modifyHead
              (opened ++ ·)))) := by
      rw [ih (h.read quoted) hroom, List.modifyHead_modifyHead]
      simp only [Function.comp_def, List.append_assoc, List.singleton_append]
    rw [pieces]
    by_cases hquote : c = quote
    · rw [run?, if_pos hquote, if_pos hquote]
      exact hread (!pass.quoted)
    · rw [if_neg hquote]
      by_cases hcut : c = delimiter ∧ pass.quoted = false
      · -- The piece ends here, and it is kept unless it is blank.
        obtain ⟨rfl, hquoted⟩ := hcut
        rw [if_pos ⟨rfl, hquoted⟩, run?_cut h hquote hquoted hroom, List.modifyHead_cons,
          List.append_nil, ← keep_append_tidied]
        split
        · -- The limit is reached, and what is left is not read.
          rename_i hfull
          have hlength : (keep pass.found opened).length = limit := by
            have hkeep := length_keep_le pass.found opened
            omega
          rw [limited_append_of_full hfull.1 hlength]
        · rename_i hfull
          have hmore : limit = 0 ∨ (keep pass.found opened).length < limit := by omega
          rw [ih (h.next false (keep pass.found opened)) hmore]
          exact congrArg (fun xs ↦ some (limited limit (keep pass.found opened ++ tidied xs)))
            (congrFun List.modifyHead_id _)
      · -- A delimiter in quotes, or another character.
        have hgoes : pass.quoted = true ∨ c ≠ delimiter := by
          rcases hquoted : pass.quoted with - | -
          · exact .inr fun hc ↦ hcut ⟨hc, hquoted⟩
          · exact .inl rfl
        rw [run?, if_neg hquote, if_pos hgoes, if_neg hcut]
        exact hread pass.quoted

end SegmentPass

/-- **The pass finds the segments** of every text. -/
theorem splitInPass?_eq (limit : ℕ) (t : Text) :
    splitInPass? delimiter quote limit t = some (splitQuoted delimiter quote limit t) := by
  rw [splitInPass?, splitQuoted]
  split
  · have hlimit : limit = 0 ∨ 0 < limit := Nat.eq_zero_or_pos limit
    rw [SegmentPass.run?_eq (.initial t) hlimit]
    show some (limited limit (tidied ((pieces delimiter quote false t).modifyHead ([] ++ ·)))) = _
    have hid : (pieces delimiter quote false t).modifyHead ([] ++ ·) =
        pieces delimiter quote false t := congrFun List.modifyHead_id _
    rw [hid, limited, segments_eq_tidied]
  · rfl

/-- **Splitting as it is specified.** The pass over a text always has an answer. A text without the
delimiter is one segment, which is trimmed. Any other text has as segments what lies between its
cuts, trimmed, without the ones of which nothing is left; and a limit takes the first of them. -/
theorem segments_between_cuts (delimiter quote : Char) (limit : ℕ) (t : Text) :
    splitInPass? delimiter quote limit t = some (splitQuoted delimiter quote limit t) ∧
      (delimiter ∉ t → splitInPass? delimiter quote limit t = some [t.trim]) ∧
      (delimiter ∈ t → splitInPass? delimiter quote 0 t =
        some (((t.between 0 (cuts delimiter quote t)).map trim).filter (· ≠ []))) ∧
      (0 < limit → splitInPass? delimiter quote limit t =
        (splitInPass? delimiter quote 0 t).map (·.take limit)) := by
  refine ⟨splitInPass?_eq limit t, fun hnone ↦ if_neg hnone, fun hsome ↦ ?_, fun hpos ↦ ?_⟩
  · have hfilter (x : Text) : (!x.isEmpty) = decide (x ≠ []) := by
      rcases x with - | - <;> rfl
    rw [splitInPass?_eq, splitQuoted, if_pos hsome, if_pos rfl, segments, pieces_eq_between]
    simp only [hfilter]
  · have hlimit : limit ≠ 0 := Nat.ne_of_gt hpos
    rw [splitInPass?_eq, splitInPass?_eq, Option.map_some, splitQuoted, splitQuoted]
    by_cases hmem : delimiter ∈ t
    · rw [if_pos hmem, if_neg hlimit, if_pos hmem, if_pos rfl]
    · rw [if_neg hmem, if_neg hmem, List.take_of_length_le hpos]

/-- A text with delimiters of two bytes, one of them between quotes of four bytes, and a piece that
is empty. -/
def sharp : Text := "aß b😀cßd😀ßß e".toList

/-- Of the four delimiters three cut; of the four pieces three are segments, and the limit takes two
of these. -/
theorem sharp_segments : cuts 'ß' '😀' sharp = [1, 9, 10] ∧
    splitInPass? 'ß' '😀' 0 sharp =
      some ["a".toList, "b😀cßd😀".toList, "e".toList] ∧
    splitInPass? 'ß' '😀' 2 sharp = some ["a".toList, "b😀cßd😀".toList] ∧
    splitInPass? '|' '😀' 2 sharp = some [sharp] := by
  obtain ⟨-, -, hall, hlimit⟩ := segments_between_cuts 'ß' '😀' 2 sharp
  obtain ⟨-, hwhole, -, -⟩ := segments_between_cuts '|' '😀' 2 sharp
  have hthree : splitInPass? 'ß' '😀' 0 sharp =
      some ["a".toList, "b😀cßd😀".toList, "e".toList] := (hall (by decide)).trans (by decide)
  refine ⟨by decide, hthree, ?_, (hwhole (by decide)).trans (by decide)⟩
  rw [hlimit (by decide), hthree]
  rfl

end TagTemplate.Text
