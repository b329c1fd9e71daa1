import Mathlib.Data.List.Basic
import TagTemplate.Text.Quote

/-!
# Splitting what was joined

A text is *sealed* against a delimiter when splitting at it passes over the text: nothing is cut
inside of it, and what stands behind it is not quoted (`Sealed`). Being sealed is a property of the
parts of a text: texts without quotes and delimiters are sealed, quotations are sealed whatever they
quote (`sealed_quote`), and sealed texts stay so when they are put one behind the other
(`Sealed.append`).

Quotations are what the doubling of quotes is for. Two quotes in a row leave and enter the quotation
without a character between them, so every character of the text that is quoted stands inside of the
quotation.

Sealed texts that are joined by the delimiter are the pieces that splitting finds
(`pieces_join`). They are the segments too if they are `Firm`, so that trimming leaves them as they
are (`splitQuoted_join`).
-/

namespace TagTemplate.Text

variable {delimiter : Char}

/-! ### Texts that splitting passes over -/

/-- Splitting at the delimiter passes over the text as over a single unquoted character. -/
def Sealed (delimiter : Char) (x : Text) : Prop :=
  ∀ t, pieces delimiter quoteMark false (x ++ t) =
    (pieces delimiter quoteMark false t).modifyHead (x ++ ·)

theorem sealed_nil : Sealed delimiter [] := by
  intro t
  obtain ⟨piece, pieces, hpieces⟩ :=
    List.exists_cons_of_ne_nil (pieces_ne_nil delimiter quoteMark false t)
  rw [List.nil_append, hpieces]
  rfl

/-- Sealed texts are sealed together. -/
theorem Sealed.append {x y : Text} (hx : Sealed delimiter x) (hy : Sealed delimiter y) :
    Sealed delimiter (x ++ y) := by
  intro t
  rw [List.append_assoc, hx, hy, List.modifyHead_modifyHead]
  simp only [Function.comp_def, List.append_assoc]

/-- A text is sealed that holds neither quotes nor delimiters. -/
theorem sealed_of_notMem {x : Text} (hquote : quoteMark ∉ x) (hdelimiter : delimiter ∉ x) :
    Sealed delimiter x := by
  induction x with
  | nil => exact sealed_nil
  | cons c x ih =>
    rw [List.mem_cons, not_or] at hquote hdelimiter
    intro t
    rw [List.cons_append, pieces, if_neg (Ne.symm hquote.1),
      if_neg fun hcut ↦ hdelimiter.1 hcut.1.symm, ih hquote.2 hdelimiter.2,
      List.modifyHead_modifyHead]
    rfl

/-- Inside of a quotation, splitting passes over any text whose quotes are doubled. -/
theorem pieces_double (v t : Text) :
    pieces delimiter quoteMark true (double v ++ t) =
      (pieces delimiter quoteMark true t).modifyHead (double v ++ ·) := by
  induction v with
  | nil =>
    obtain ⟨piece, pieces, hpieces⟩ :=
      List.exists_cons_of_ne_nil (pieces_ne_nil delimiter quoteMark true t)
    rw [double, List.flatMap_nil, List.nil_append, hpieces]
    rfl
  | cons c v ih =>
    rw [double, List.flatMap_cons, ← double]
    by_cases hmark : c = quoteMark
    · -- The first quote leaves the quotation, and the second one enters it again.
      rw [if_pos hmark]
      show pieces delimiter quoteMark true (c :: c :: (double v ++ t)) = _
      rw [pieces, if_pos hmark, pieces, if_pos hmark]
      show ((pieces delimiter quoteMark true (double v ++ t)).modifyHead _).modifyHead _ = _
      rw [ih, List.modifyHead_modifyHead, List.modifyHead_modifyHead]
      rfl
    · rw [if_neg hmark]
      show pieces delimiter quoteMark true (c :: (double v ++ t)) = _
      rw [pieces, if_neg hmark, if_neg (by simp), ih, List.modifyHead_modifyHead]
      rfl

/-- **Quotations are sealed**, whatever they quote. -/
theorem sealed_quote (v : Text) : Sealed delimiter v.quote := by
  intro t
  have hopened : pieces delimiter quoteMark false (quote v ++ t) =
      (pieces delimiter quoteMark true (double v ++ quoteMark :: t)).modifyHead
        (quoteMark :: ·) := by
    rw [quote, List.cons_append, List.cons_append, List.append_assoc, pieces, if_pos rfl]
    rfl
  have hclosed : pieces delimiter quoteMark true (quoteMark :: t) =
      (pieces delimiter quoteMark false t).modifyHead (quoteMark :: ·) := by
    rw [pieces, if_pos rfl]
    rfl
  rw [hopened, pieces_double, hclosed, List.modifyHead_modifyHead, List.modifyHead_modifyHead]
  simp [Function.comp_def, quote]

theorem join_cons {mark x : Text} {xs : List Text} (h : xs ≠ []) :
    join mark (x :: xs) = x ++ mark ++ join mark xs := by
  obtain ⟨y, ys, rfl⟩ := List.exists_cons_of_ne_nil h
  rfl

/-! ### Texts that trimming leaves alone -/

/-- A text that neither begins nor ends with a blank. -/
structure Firm (t : Text) : Prop where
  ne_nil : t ≠ []
  head : ∀ c ∈ t.head?, isBlank c = false
  last : ∀ c ∈ t.getLast?, isBlank c = false

theorem all_not_isBlank_iff (o : Option Char) :
    (o.all fun c ↦ !isBlank c) = true ↔ ∀ c ∈ o, isBlank c = false := by
  rcases o with - | c <;> simp

/-- Whether trimming leaves a text alone can be computed. -/
instance (t : Text) : Decidable (Firm t) :=
  decidable_of_iff
    (t ≠ [] ∧ (t.head?.all fun c ↦ !isBlank c) = true ∧
      (t.getLast?.all fun c ↦ !isBlank c) = true)
    ⟨fun ⟨ne_nil, head, last⟩ ↦
      ⟨ne_nil, (all_not_isBlank_iff _).1 head, (all_not_isBlank_iff _).1 last⟩,
    fun h ↦ ⟨h.ne_nil, (all_not_isBlank_iff _).2 h.head, (all_not_isBlank_iff _).2 h.last⟩⟩

namespace Firm

variable {x y : Text}

theorem trim_eq (h : Firm x) : x.trim = x := trimWhere_eq_self h.head h.last

/-- Blanks between two texts are not at an end. -/
theorem append (hx : Firm x) (mark : Text) (hy : Firm y) : Firm (x ++ mark ++ y) where
  ne_nil h := hy.ne_nil (List.append_eq_nil_iff.1 h).2
  head := by
    rw [List.append_assoc, List.head?_append_of_ne_nil _ hx.ne_nil]
    exact hx.head
  last := by
    rw [List.getLast?_append_of_ne_nil _ hy.ne_nil]
    exact hy.last

/-- Firm texts that are joined are firm, for the outermost ones give the ends. -/
theorem join (mark : Text) {xs : List Text} (hxs : xs ≠ []) (h : ∀ x ∈ xs, Firm x) :
    Firm (Text.join mark xs) := by
  induction xs with
  | nil => exact absurd rfl hxs
  | cons x xs ih =>
    rw [List.forall_mem_cons] at h
    rcases eq_or_ne xs [] with rfl | hne
    · exact h.1
    · rw [join_cons hne]
      exact h.1.append mark (ih hne h.2)

end Firm

/-! ### Splitting joined texts -/

/-- A sealed text is one piece. -/
theorem Sealed.pieces_eq {x : Text} (h : Sealed delimiter x) :
    pieces delimiter quoteMark false x = [x] := by
  have hend := h []
  rw [List.append_nil] at hend
  rw [hend]
  simp [pieces]

/-- A sealed text before a delimiter is the first piece. -/
theorem Sealed.pieces_append {x : Text} (h : Sealed delimiter x) (hne : delimiter ≠ quoteMark)
    (t : Text) :
    pieces delimiter quoteMark false (x ++ delimiter :: t) =
      x :: pieces delimiter quoteMark false t := by
  have hcut : pieces delimiter quoteMark false (delimiter :: t) =
      [] :: pieces delimiter quoteMark false t := by
    rw [pieces, if_neg hne, if_pos ⟨rfl, rfl⟩]
  rw [h, hcut, List.modifyHead_cons, List.append_nil]

/-- Sealed texts with a sealed mark between them are sealed together. -/
theorem sealed_join {mark : Text} (hmark : Sealed delimiter mark) {xs : List Text}
    (h : ∀ x ∈ xs, Sealed delimiter x) : Sealed delimiter (join mark xs) := by
  induction xs with
  | nil => exact sealed_nil
  | cons x xs ih =>
    rw [List.forall_mem_cons] at h
    rcases eq_or_ne xs [] with rfl | hxs
    · exact h.1
    · rw [join_cons hxs]
      exact (h.1.append hmark).append (ih h.2)

/-- The pieces of joined texts are these texts. -/
theorem pieces_join (hne : delimiter ≠ quoteMark) {xs : List Text} (hxs : xs ≠ [])
    (h : ∀ x ∈ xs, Sealed delimiter x) :
    pieces delimiter quoteMark false (join [delimiter] xs) = xs := by
  induction xs with
  | nil => exact absurd rfl hxs
  | cons x xs ih =>
    rw [List.forall_mem_cons] at h
    rcases xs with - | ⟨y, ys⟩
    · exact h.1.pieces_eq
    · have hrest := ih (List.cons_ne_nil y ys) h.2
      rw [join_cons (List.cons_ne_nil y ys), List.append_assoc, List.singleton_append,
        h.1.pieces_append hne, hrest]

/-- A text without the delimiter is one piece, in quotes or not. -/
theorem pieces_of_notMem {t : Text} (h : delimiter ∉ t) (quoted : Bool) :
    pieces delimiter quoteMark quoted t = [t] := by
  induction t generalizing quoted with
  | nil => rfl
  | cons c t ih =>
    rw [List.mem_cons, not_or] at h
    have hrest (quoted : Bool) : (pieces delimiter quoteMark quoted t).modifyHead (c :: ·) =
        [c :: t] := by rw [ih h.2]; rfl
    have hcut : ¬(c = delimiter ∧ quoted = false) := fun hcut ↦ h.1 hcut.1.symm
    rw [pieces, if_neg hcut, hrest, hrest, ite_self]

/-- **Splitting takes apart what was joined**: texts that are sealed and firm, if the limit allows
as many of them. -/
theorem splitQuoted_join (hne : delimiter ≠ quoteMark) {limit : ℕ} {xs : List Text} (hxs : xs ≠ [])
    (hlimit : limit = 0 ∨ xs.length ≤ limit)
    (h : ∀ x ∈ xs, Sealed delimiter x ∧ Firm x) :
    splitQuoted delimiter quoteMark limit (join [delimiter] xs) = xs := by
  have hpieces : pieces delimiter quoteMark false (join [delimiter] xs) = xs :=
    pieces_join hne hxs fun x hx ↦ (h x hx).1
  rw [splitQuoted]
  by_cases hmem : delimiter ∈ join [delimiter] xs
  · have htrim : xs.map trim = xs :=
      (List.map_congr_left fun x hx ↦ (h x hx).2.trim_eq).trans (List.map_id xs)
    have hsegments : segments delimiter quoteMark (join [delimiter] xs) = xs := by
      rw [segments, hpieces, htrim, List.filter_eq_self]
      intro x hx
      simpa using (h x hx).2.ne_nil
    rw [if_pos hmem, hsegments]
    rcases hlimit with rfl | hlimit
    · exact if_pos rfl
    · rw [List.take_of_length_le hlimit, ite_self]
  · -- Without a delimiter there is one text, and it is the whole.
    have hwhole : xs = [join [delimiter] xs] := hpieces.symm.trans (pieces_of_notMem hmem false)
    have hjoin : join [delimiter] xs ∈ xs :=
      (congrArg (join [delimiter] xs ∈ ·) hwhole).mpr (List.mem_singleton_self _)
    rw [if_neg hmem, (h _ hjoin).2.trim_eq]
    exact hwhole.symm

/-- Sealed and firm texts that are joined at a delimiter are split again. -/
theorem split_join (hne : delimiter ≠ quoteMark) {xs : List Text} (hxs : xs ≠ [])
    (h : ∀ x ∈ xs, Sealed delimiter x ∧ Firm x) :
    split delimiter (join [delimiter] xs) = xs :=
  splitQuoted_join hne hxs (.inl rfl) h

/-- A firm text that is not cut is its only segment. -/
theorem Firm.split_eq {x : Text} (hfirm : Firm x)
    (h : pieces delimiter quoteMark false x = [x]) : split delimiter x = [x] := by
  rw [split, splitQuoted]
  split
  · rw [if_pos rfl, segments, h, List.map_singleton, hfirm.trim_eq,
      List.filter_cons_of_pos (by simpa using hfirm.ne_nil), List.filter_nil]
  · rw [hfirm.trim_eq]

end TagTemplate.Text
