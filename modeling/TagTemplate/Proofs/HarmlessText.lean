import Mathlib.Data.List.Infix
import TagTemplate.Proofs.QuotedCuts

/-!
# Texts between quotes as they are

A text that is put between quotes without doubling its own (`enclosed`) is cut where a delimiter in
it is not covered. Around the quotes there may be more text, and delimiters at which it is cut
anyway; what matters is that it has the delimiters of the data and as many more as there are such
cuts (`Holds`). Then a part of it that has all the delimiters of the data can only be found if the
data was not cut (`Holds.covered`), since every cut takes a delimiter from each of the parts.

A text is *harmless* when it can stand between the quotes of a value as it is. What stands in front
of it in the same quotation does not matter (`harmless_append_iff`).
-/

namespace TagTemplate.Text

variable {delimiter : Char}

/-! ### Enclosed texts -/

/-- The text between quotes, without doubling the quotes in it. -/
def enclosed (t : Text) : Text := quoteMark :: (t ++ [quoteMark])

/-- A text in quotes is cut where it would be cut behind a quote. -/
theorem length_pieces_enclosed (t : Text) :
    (pieces delimiter quoteMark false (enclosed t)).length =
      (pieces delimiter quoteMark true t).length := by
  rw [enclosed, pieces, if_pos rfl, List.length_modifyHead]
  exact length_pieces_concat true t

theorem firm_enclosed (t : Text) : Firm (enclosed t) := by
  have hmark : isBlank quoteMark = false := by decide
  exact ⟨List.cons_ne_nil _ _, by simp [enclosed, hmark],
    by simp [enclosed, List.getLast?_cons, hmark]⟩

/-- To unquote a text in quotes is to undouble the quotes within. -/
theorem unquote_enclosed (t : Text) : unquote (enclosed t) = undouble t := by
  have hunwrapped : unwrapped (enclosed t) = t := by
    rw [unwrapped, if_pos ⟨by simp [enclosed], rfl, by simp [enclosed, List.getLast?_cons]⟩]
    simp [enclosed]
  rw [unquote, hunwrapped]

/-- A text in quotes whose delimiters are all covered is one segment. -/
theorem split_enclosed (hne : delimiter ≠ quoteMark) {t : Text} (h : Covered delimiter t) :
    split delimiter (enclosed t) = [enclosed t] := by
  refine (firm_enclosed t).split_eq (pieces_eq_singleton ?_)
  rw [length_pieces_enclosed, ← covered_iff hne]
  exact h

/-- A text that is cut leaves at least two segments: something is left of the piece with the first
quote, and of the piece with the last one. -/
theorem two_le_length_split_enclosed (hne : delimiter ≠ quoteMark) {t : Text}
    (h : ¬Covered delimiter t) : 2 ≤ (split delimiter (enclosed t)).length := by
  have hmark : isBlank quoteMark = false := by decide
  have hcut : (pieces delimiter quoteMark false (enclosed t)).length ≠ 1 := by
    rw [length_pieces_enclosed, Ne, ← covered_iff hne]
    exact h
  have hmem : delimiter ∈ enclosed t := by
    by_contra hnone
    rw [pieces_of_notMem hnone] at hcut
    exact hcut rfl
  have hopened : pieces delimiter quoteMark false (enclosed t) =
      (pieces delimiter quoteMark true (t ++ [quoteMark])).modifyHead (quoteMark :: ·) := by
    rw [enclosed, pieces, if_pos rfl]
    rfl
  rw [hopened, List.length_modifyHead] at hcut
  -- The first piece and the last one are two.
  obtain ⟨first, rest, hpieces⟩ := List.exists_cons_of_ne_nil
    (pieces_ne_nil delimiter quoteMark true (t ++ [quoteMark]))
  have hrest : rest ≠ [] := by
    rintro rfl
    rw [hpieces] at hcut
    exact hcut rfl
  have hlast : rest.getLast hrest ∈
      (pieces delimiter quoteMark true (t ++ [quoteMark])).getLast? := by
    rw [hpieces, List.getLast?_cons, List.getLast?_eq_some_getLast hrest]
    rfl
  have hfirst : trim (quoteMark :: first) ≠ [] := trim_ne_nil List.mem_cons_self hmark
  have hleft : trim (rest.getLast hrest) ∈
      (rest.map trim).filter fun piece ↦ !piece.isEmpty :=
    List.mem_filter.2 ⟨List.mem_map_of_mem (List.getLast_mem hrest),
      by simpa using trim_ne_nil (mem_getLast_pieces true t hlast) hmark⟩
  have hpos := List.length_pos_of_mem hleft
  rw [split, splitQuoted, if_pos hmem, if_pos rfl, segments, hopened, hpieces, List.modifyHead_cons,
    List.map_cons, List.filter_cons_of_pos (by simpa using hfirst), List.length_cons]
  omega

/-! ### Texts that hold enclosed data -/

/-- The text has the data in it, enclosed as it is, and is cut at the given number of delimiters in
front of the data. -/
structure Holds (delimiter : Char) (cuts : ℕ) (t data : Text) : Prop where
  length_pieces : (pieces delimiter quoteMark false t).length =
    cuts + (pieces delimiter quoteMark true data).length
  count : t.count delimiter = cuts + data.count delimiter

/-- Data in quotes are held without a cut. -/
theorem holds_enclosed (hne : delimiter ≠ quoteMark) (data : Text) :
    Holds delimiter 0 (enclosed data) data where
  length_pieces := by rw [length_pieces_enclosed, Nat.zero_add]
  count := by
    rw [enclosed, List.count_cons_of_ne hne.symm, List.count_append,
      List.count_singleton, if_neg (by simpa using hne.symm), Nat.zero_add]
    rfl

namespace Holds

variable {cuts : ℕ} {s t data : Text} (h : Holds delimiter cuts t data)
include h

/-- A text without quotes and delimiters in front leaves data held. -/
theorem append (hquote : quoteMark ∉ s) (hdelimiter : delimiter ∉ s) :
    Holds delimiter cuts (s ++ t) data where
  length_pieces := by
    rw [sealed_of_notMem hquote hdelimiter, List.length_modifyHead, h.length_pieces]
  count := by
    rw [List.count_append, List.count_eq_zero.2 hdelimiter, Nat.zero_add, h.count]

/-- A delimiter in front is one cut more. -/
theorem cut (hne : delimiter ≠ quoteMark) : Holds delimiter (cuts + 1) (delimiter :: t) data where
  length_pieces := by
    rw [pieces, if_neg hne, if_pos ⟨rfl, rfl⟩, List.length_cons, h.length_pieces]
    omega
  count := by
    rw [List.count_cons_self, h.count]
    omega

/-- **A part that has all the delimiters of the data was not cut out of it**, so the data is
covered. -/
theorem covered (hne : delimiter ≠ quoteMark) {x piece : Text}
    (hpiece : piece ∈ pieces delimiter quoteMark false t) (hx : x.Sublist piece)
    (hdata : data.Sublist x) : Covered delimiter data := by
  have hcount : piece.count delimiter + (pieces delimiter quoteMark false t).length ≤
      (join [delimiter] (pieces delimiter quoteMark false t)).count delimiter + 1 :=
    count_add_length_le hpiece
  rw [join_pieces, h.length_pieces, h.count] at hcount
  have hle := (hdata.trans hx).count_le delimiter
  have hpos := List.length_pos_iff.2 (pieces_ne_nil delimiter quoteMark true data)
  rw [covered_iff hne]
  omega

omit h in
/-- Around covered data nothing is cut. -/
theorem pieces_eq (h : Holds delimiter 0 t data) (hne : delimiter ≠ quoteMark)
    (hcovered : Covered delimiter data) : pieces delimiter quoteMark false t = [t] := by
  refine pieces_eq_singleton ?_
  rw [h.length_pieces, (covered_iff hne data).1 hcovered]

end Holds

/-! ### Harmless texts -/

/-- A text that can stand between the quotes of a value as it is: it has no two quotes in a row, and
nothing in it cuts the value. -/
structure Harmless (t : Text) : Prop where
  single : ¬[quoteMark, quoteMark] <:+: t
  covered : ∀ delimiter ∈ "?&=;".toList, Covered delimiter t

/-- A text without quotes and delimiters in front covers and uncovers nothing. -/
theorem covered_append_iff {s t : Text} (hquote : quoteMark ∉ s) (hdelimiter : delimiter ∉ s) :
    Covered delimiter (s ++ t) ↔ Covered delimiter t := by
  have hnone : s.count quoteMark = 0 := List.count_eq_zero.2 hquote
  constructor
  · intro h before after ht
    have hwhole := h (s ++ before) after (by rw [ht, List.append_assoc])
    rwa [List.count_append, hnone, Nat.zero_add] at hwhole
  · intro h before after hwhole
    obtain ⟨before', rfl, ht⟩ | ⟨middle, rfl, -⟩ := List.append_eq_append_iff.1 hwhole
    · rw [List.count_append, hnone, Nat.zero_add]
      exact h before' after ht
    · -- Then nothing of the text stands before the delimiter.
      have hbefore : before.count quoteMark = 0 :=
        List.count_eq_zero.2 fun hmem ↦ hquote (List.mem_append_left middle hmem)
      rw [hbefore]
      exact Even.zero

/-- A text without quotes in front stays as it is. -/
theorem undouble_append_of_notMem {s : Text} (h : quoteMark ∉ s) (t : Text) :
    undouble (s ++ t) = s ++ undouble t := by
  induction s with
  | nil => rfl
  | cons c s ih =>
    rw [List.mem_cons, not_or] at h
    rw [List.cons_append, undouble_cons_of_ne (Ne.symm h.1), ih h.2]
    rfl

/-- What stands in front of the text in the same quotation does not matter. -/
theorem harmless_append_iff {s t : Text} (hquote : quoteMark ∉ s)
    (hdelimiter : ∀ delimiter ∈ "?&=;".toList, delimiter ∉ s) :
    Harmless (s ++ t) ↔ Harmless t := by
  have hsingle : ¬[quoteMark, quoteMark] <:+: s ++ t ↔ ¬[quoteMark, quoteMark] <:+: t := by
    rw [← undouble_eq_self_iff, ← undouble_eq_self_iff, undouble_append_of_notMem hquote,
      List.append_cancel_left_eq]
  have hcovered (delimiter : Char) (hmem : delimiter ∈ "?&=;".toList) :
      Covered delimiter (s ++ t) ↔ Covered delimiter t :=
    covered_append_iff hquote (hdelimiter delimiter hmem)
  exact ⟨fun h ↦ ⟨hsingle.1 h.single, fun d hd ↦ (hcovered d hd).1 (h.covered d hd)⟩,
    fun h ↦ ⟨hsingle.2 h.single, fun d hd ↦ (hcovered d hd).2 (h.covered d hd)⟩⟩

/-- Whether all delimiters are covered, place by place. -/
theorem covered_iff_getElem (t : Text) : Covered delimiter t ↔
    ∀ n : Fin t.length, t[n] = delimiter → Even ((t.take n).count quoteMark) := by
  constructor
  · intro h n hn
    refine h (t.take n) (t.drop (n + 1)) ?_
    rw [← hn]
    exact (List.take_append_drop n t).symm.trans (by rw [List.drop_eq_getElem_cons n.isLt]; rfl)
  · rintro h before after rfl
    have hat := h ⟨before.length, by simp⟩ (by simp)
    simpa using hat

/-- Whether a text is covered can be computed. -/
instance (t : Text) : Decidable (Covered delimiter t) :=
  @decidable_of_iff' _ _ (covered_iff_getElem t) (Nat.decidableForallFin _)

/-- Whether a text is harmless can be computed. -/
instance (t : Text) : Decidable (Harmless t) :=
  letI := List.decidableBAll (fun delimiter ↦ Covered delimiter t) "?&=;".toList
  decidable_of_iff
    (¬[quoteMark, quoteMark] <:+: t ∧ ∀ delimiter ∈ "?&=;".toList, Covered delimiter t)
    ⟨fun ⟨single, covered⟩ ↦ ⟨single, covered⟩, fun h ↦ ⟨h.single, h.covered⟩⟩

end TagTemplate.Text
