import Mathlib.Data.List.DropRight
import Mathlib.Data.List.TakeWhile
import TagTemplate.Proofs.QuotedSplit

/-!
# Trimming

A text is its trimmed text with blanks in front and behind (`exists_eq_trim`), and blanks at the
ends do not change what trimming leaves. Pieces are trimmed one by one, and blanks neither cut nor
quote; so it makes no difference to the segments of a text whether the text itself is trimmed first
(`segments_trim`).
-/

namespace TagTemplate.Text

variable {class? : Char → Bool} {delimiter quote c : Char} {t : Text}

/-- A character of the class in front is trimmed. -/
theorem trimWhere_cons (h : class? c = true) (t : Text) :
    trimWhere class? (c :: t) = trimWhere class? t := by
  rw [trimWhere, List.dropWhile_cons_of_pos h, ← trimWhere]

/-- A character of the class at the end is trimmed. -/
theorem trimWhere_concat (h : class? c = true) (t : Text) :
    trimWhere class? (t ++ [c]) = trimWhere class? t := by
  rw [trimWhere, trimWhere, List.dropWhile_append]
  split
  · rename_i hempty
    rw [List.isEmpty_iff.1 hempty, List.dropWhile_cons_of_pos h]
    rfl
  · rw [List.reverse_append, List.reverse_singleton, List.singleton_append,
      List.dropWhile_cons_of_pos h]

/-- Only blanks. -/
def Blank (t : Text) : Prop := ∀ c ∈ t, isBlank c = true

/-- Blanks in front of a text make no difference to what is left of it. -/
theorem trim_blank_append {blanks : Text} (h : Blank blanks) (t : Text) :
    trim (blanks ++ t) = trim t := by
  induction blanks with
  | nil => rfl
  | cons c blanks ih =>
    obtain ⟨hc, hblanks⟩ := List.forall_mem_cons.1 h
    rw [List.cons_append, trim, trimWhere_cons hc, ← trim, ih hblanks]

/-- Nor do blanks behind it. -/
theorem trim_append_blank {blanks : Text} (h : Blank blanks) (t : Text) :
    trim (t ++ blanks) = trim t := by
  induction blanks generalizing t with
  | nil => rw [List.append_nil]
  | cons c blanks ih =>
    obtain ⟨hc, hblanks⟩ := List.forall_mem_cons.1 h
    rw [List.append_cons, ih hblanks, trim, trimWhere_concat hc, ← trim]

/-! ### The two ends -/

/-- The text without the blanks at its end. -/
def trimEnd (t : Text) : Text := t.rdropWhile isBlank

theorem trim_eq_trimEnd (t : Text) : trim t = trimEnd (t.dropWhile isBlank) := rfl

/-- A text that does not begin with a blank is trimmed at its end only. -/
theorem trim_of_head (h : ∀ c ∈ t.head?, isBlank c = false) : trim t = trimEnd t := by
  rw [trim_eq_trimEnd]
  rcases t with - | ⟨c, t⟩
  · rfl
  · rw [List.dropWhile_cons_of_neg (by simp [h c rfl])]

/-- Trimming the end leaves alone what ends in front of a character that is not blank. -/
theorem trimEnd_append {x : Text} (h : ∀ c ∈ x.getLast?, isBlank c = false) (y : Text) :
    trimEnd (x ++ y) = x ++ trimEnd y := by
  have hx : x.reverse.dropWhile isBlank = x.reverse := by
    rcases hreverse : x.reverse with - | ⟨c, rest⟩
    · rfl
    · have hc : isBlank c = false := h c (by rw [← List.head?_reverse, hreverse]; rfl)
      rw [List.dropWhile_cons_of_neg (by simp [hc])]
  rw [trimEnd, trimEnd, List.rdropWhile, List.rdropWhile, List.reverse_append, List.dropWhile_append]
  split
  · rename_i hempty
    rw [hx, List.reverse_reverse, List.isEmpty_iff.1 hempty, List.reverse_nil, List.append_nil]
  · rw [List.reverse_append, List.reverse_reverse]

/-- A firm text stays at the start of a text. -/
theorem Firm.trim_append {x : Text} (h : Firm x) (y : Text) : trim (x ++ y) = x ++ trimEnd y := by
  have hhead : ∀ c ∈ (x ++ y).head?, isBlank c = false := by
    rw [List.head?_append_of_ne_nil _ h.ne_nil]
    exact h.head
  rw [trim_of_head hhead, trimEnd_append h.last]

theorem blank_rtakeWhile (t : Text) : Blank (t.rtakeWhile isBlank) :=
  fun _ hc ↦ List.mem_rtakeWhile_imp hc

theorem blank_takeWhile (t : Text) : Blank (t.takeWhile isBlank) :=
  fun _ hc ↦ List.mem_takeWhile_imp hc

/-- A text is its trimmed text between blanks. -/
theorem exists_eq_trim (t : Text) :
    ∃ front behind, Blank front ∧ Blank behind ∧ t = front ++ (trim t ++ behind) :=
  ⟨t.takeWhile isBlank, (t.dropWhile isBlank).rtakeWhile isBlank, blank_takeWhile t,
    blank_rtakeWhile _, by
      rw [trim_eq_trimEnd, trimEnd, List.rdropWhile_append_rtakeWhile,
        List.takeWhile_append_dropWhile]⟩

/-- What trimming leaves does not begin with a blank. -/
theorem head_trim : ∀ c ∈ (trim t).head?, isBlank c = false := by
  intro c hc
  obtain ⟨rest, hrest⟩ : trim t <+: t.dropWhile isBlank := List.rdropWhile_prefix isBlank _
  have hhead : (t.dropWhile isBlank).head? = some c := by
    rw [← hrest, List.head?_append, Option.mem_def.1 hc, Option.some_or]
  have hnot := List.head?_dropWhile_not isBlank t
  rw [hhead] at hnot
  simpa using hnot

/-- A blank at the start makes a difference between trimming the end and trimming both ends. -/
theorem trimEnd_ne_trim (hc : isBlank c = true) (hne : trim (c :: t) ≠ []) :
    trimEnd (c :: t) ≠ trim (c :: t) := by
  intro hsame
  obtain ⟨rest, hrest⟩ : trimEnd (c :: t) <+: c :: t := List.rdropWhile_prefix isBlank _
  rw [hsame] at hrest
  obtain ⟨d, x, hx⟩ := List.exists_cons_of_ne_nil hne
  have hfirm : isBlank d = false := head_trim d (by rw [hx]; rfl)
  rw [hx] at hrest
  obtain rfl : d = c := (List.cons.inj hrest).1
  simp [hfirm] at hc

/-- What begins with a firm text when it is trimmed does so with more text behind it. -/
theorem Firm.prefix_trim_append {x : Text} (hx : Firm x) (h : x <+: trim t) (y : Text) :
    x <+: trim (t ++ y) := by
  obtain ⟨front, behind, hfront, -, ht⟩ := exists_eq_trim t
  obtain ⟨rest, hrest⟩ := h
  have hwhole : t ++ y = front ++ (x ++ (rest ++ behind ++ y)) := by
    calc t ++ y = front ++ (trim t ++ behind) ++ y := by rw [← ht]
      _ = front ++ (x ++ rest ++ behind) ++ y := by rw [hrest]
      _ = front ++ (x ++ (rest ++ behind ++ y)) := by simp only [List.append_assoc]
  rw [hwhole, trim_blank_append hfront, hx.trim_append]
  exact List.prefix_append x _

/-! ### Segments of a trimmed text -/

/-- The pieces of which something is left when they are trimmed. -/
def tidied (xs : List Text) : List Text := (xs.map trim).filter fun x ↦ !x.isEmpty

theorem segments_eq_tidied (t : Text) :
    segments delimiter quote t = tidied (pieces delimiter quote false t) := rfl

theorem tidied_cons_of_nil {x : Text} (h : x.trim = []) (xs : List Text) :
    tidied (x :: xs) = tidied xs := by
  rw [tidied, List.map_cons, List.filter_cons_of_neg (by simp [h])]
  rfl

theorem tidied_cons_of_ne_nil {x : Text} (h : x.trim ≠ []) (xs : List Text) :
    tidied (x :: xs) = x.trim :: tidied xs := by
  rw [tidied, List.map_cons, List.filter_cons_of_pos (by simpa using h)]
  rfl

/-- Pieces that are trimmed alike are tidied alike. -/
theorem tidied_congr {xs ys : List Text} (h : xs.map trim = ys.map trim) : tidied xs = tidied ys := by
  rw [tidied, h, tidied]

/-- Blanks have no character that is not blank. -/
theorem Blank.notMem {blanks : Text} (h : Blank blanks) (hc : isBlank c = false) : c ∉ blanks :=
  fun hmem ↦ by simp [h c hmem] at hc

/-- Blanks behind a text end up behind its last piece. -/
theorem exists_pieces_append_blank {blanks : Text} (h : Blank blanks)
    (hdelimiter : isBlank delimiter = false) (quoted : Bool) (t : Text) :
    ∃ xs x, pieces delimiter quoteMark quoted t = xs ++ [x] ∧
      pieces delimiter quoteMark quoted (t ++ blanks) = xs ++ [x ++ blanks] := by
  -- A character that is read goes into the first piece, which may be the last one too.
  have hread {xs : List Text} {x y : Text} (c : Char) :
      ∃ xs' x', (xs ++ [x]).modifyHead (c :: ·) = xs' ++ [x'] ∧
        (xs ++ [x ++ y]).modifyHead (c :: ·) = xs' ++ [x' ++ y] := by
    rcases xs with - | ⟨z, zs⟩
    · exact ⟨[], c :: x, rfl, rfl⟩
    · exact ⟨(c :: z) :: zs, x, rfl, rfl⟩
  induction t generalizing quoted with
  | nil =>
    exact ⟨[], [], rfl, pieces_of_notMem (h.notMem hdelimiter) quoted⟩
  | cons c t ih =>
    rw [List.cons_append, pieces, pieces]
    split
    · obtain ⟨xs, x, hxs, happend⟩ := ih (!quoted)
      rw [hxs, happend]
      exact hread c
    · split
      · obtain ⟨xs, x, hxs, happend⟩ := ih false
        exact ⟨[] :: xs, x, by rw [hxs]; rfl, by rw [happend]; rfl⟩
      · obtain ⟨xs, x, hxs, happend⟩ := ih quoted
        rw [hxs, happend]
        exact hread c

/-- **Trimming a text** does not change its segments. -/
theorem segments_trim (hdelimiter : isBlank delimiter = false) (t : Text) :
    segments delimiter quoteMark t.trim = segments delimiter quoteMark t := by
  obtain ⟨front, behind, hfront, hbehind, ht⟩ := exists_eq_trim t
  obtain ⟨xs, x, hxs, happend⟩ := exists_pieces_append_blank hbehind hdelimiter false t.trim
  have hsealed : Sealed delimiter front :=
    sealed_of_notMem (hfront.notMem (by decide)) (hfront.notMem hdelimiter)
  have hpieces : pieces delimiter quoteMark false t =
      (xs ++ [x ++ behind]).modifyHead (front ++ ·) := by
    rw [← happend, ← hsealed, ← ht]
  rw [segments_eq_tidied, segments_eq_tidied, hxs, hpieces]
  refine tidied_congr ?_
  rcases xs with - | ⟨y, ys⟩
  · show [trim x] = [trim (front ++ (x ++ behind))]
    rw [trim_blank_append hfront, trim_append_blank hbehind]
  · show trim y :: (ys ++ [x]).map trim = trim (front ++ y) :: (ys ++ [x ++ behind]).map trim
    rw [trim_blank_append hfront, List.map_append, List.map_append, List.map_singleton,
      List.map_singleton, trim_append_blank hbehind]

end TagTemplate.Text
