import Mathlib.Algebra.Group.Nat.Even
import Mathlib.Data.List.TakeWhile
import TagTemplate.Proofs.QuotedSplit

/-!
# Where splitting cuts

Splitting cuts at the delimiters outside of quotations. A text that is put into a quotation as it
is, without doubling its quotes, leaves the quotation at its first quote, enters another one at its
second, and so on; so it is cut exactly when one of its delimiters has an odd number of its quotes
before it (`length_pieces_eq_one_iff`). A text in which no delimiter has that is *covered*.

What is cut is lost to each of the pieces: a piece has as many delimiters less than the text as
there are cuts (`count_add_length_le`). And what is read as one quote is lost as well, so unquoting
changes a text with two quotes in a row (`undouble_eq_self_iff`).
-/

namespace TagTemplate.Text

variable {delimiter : Char}

/-! ### Covered texts -/

/-- In a quotation of the text as it is, each of these delimiters is quoted: it stands behind an
even number of the text's own quotes. -/
def Covered (delimiter : Char) (t : Text) : Prop :=
  ∀ before after, t = before ++ delimiter :: after → Even (before.count quoteMark)

/-- What stands before a delimiter of the whole begins with the first character, unless it is
nothing. -/
theorem forall_before_cons (P : Text → Prop) (c : Char) (t : Text) :
    (∀ before after, c :: t = before ++ delimiter :: after → P before) ↔
      (c = delimiter → P []) ∧
        ∀ before after, t = before ++ delimiter :: after → P (c :: before) := by
  constructor
  · intro h
    refine ⟨fun hc ↦ h [] t (by rw [hc]; rfl), fun before after ht ↦ ?_⟩
    exact h (c :: before) after (by rw [ht]; rfl)
  · rintro ⟨hfirst, hrest⟩ before after h
    rcases before with - | ⟨b, before⟩
    · exact hfirst (List.cons.inj h).1
    · obtain ⟨rfl, ht⟩ := List.cons.inj h
      exact hrest before after ht

/-- **A text is not cut** when each delimiter in it is quoted: behind an even number of quotes if
the text begins inside of a quotation, and behind an odd number of them if it does not. -/
theorem length_pieces_eq_one_iff (hne : delimiter ≠ quoteMark) (quoted : Bool) (t : Text) :
    (pieces delimiter quoteMark quoted t).length = 1 ↔
      ∀ before after, t = before ++ delimiter :: after →
        (Even (before.count quoteMark) ↔ quoted = true) := by
  induction t generalizing quoted with
  | nil => simp [pieces]
  | cons c t ih =>
    rw [forall_before_cons fun before ↦ Even (before.count quoteMark) ↔ quoted = true, pieces]
    by_cases hmark : c = quoteMark
    · -- A quote turns the parity for all that follows.
      subst hmark
      rw [if_pos rfl, List.length_modifyHead, ih]
      have hfirst : quoteMark = delimiter → (Even ([].count quoteMark) ↔ quoted = true) :=
        fun h ↦ absurd h.symm hne
      rw [and_iff_right hfirst]
      refine forall₃_congr fun before after _ ↦ ?_
      rw [List.count_cons_self, Nat.even_add_one]
      cases quoted <;> simp
    · have hcount (before : Text) : (c :: before).count quoteMark = before.count quoteMark :=
        List.count_cons_of_ne hmark
      simp only [if_neg hmark, hcount]
      by_cases hcut : c = delimiter ∧ quoted = false
      · -- A bare delimiter is a cut.
        obtain ⟨rfl, rfl⟩ := hcut
        have hpos := List.length_pos_iff.2 (pieces_ne_nil c quoteMark false t)
        rw [if_pos ⟨rfl, rfl⟩, List.length_cons]
        refine iff_of_false (by omega) fun h ↦ ?_
        simpa using (h.1 rfl).1 ⟨0, rfl⟩
      · -- Any other character belongs to the piece that it stands in.
        rw [if_neg hcut, List.length_modifyHead, ih]
        have hfirst : c = delimiter → (Even (([] : Text).count quoteMark) ↔ quoted = true) := by
          intro hc
          simpa using fun hquoted ↦ hcut ⟨hc, hquoted⟩
        rw [and_iff_right hfirst]

/-- All delimiters are covered exactly if there is no cut. -/
theorem covered_iff (hne : delimiter ≠ quoteMark) (t : Text) :
    Covered delimiter t ↔ (pieces delimiter quoteMark true t).length = 1 := by
  rw [length_pieces_eq_one_iff hne, Covered]
  simp

/-- What is not cut is passed over. Behind it, the text is quoted or not as the quotes before it
have left it. -/
theorem pieces_append_of_length_eq_one {quoted : Bool} {x : Text}
    (h : (pieces delimiter quoteMark quoted x).length = 1) (t : Text) :
    pieces delimiter quoteMark quoted (x ++ t) =
      (pieces delimiter quoteMark (if Even (x.count quoteMark) then quoted else !quoted) t).modifyHead
        (x ++ ·) := by
  induction x generalizing quoted with
  | nil =>
    rw [List.count_nil, if_pos ⟨0, rfl⟩]
    exact (congrFun List.modifyHead_id _).symm
  | cons c x ih =>
    rw [List.cons_append, pieces]
    rw [pieces] at h
    split at h
    · rename_i hmark
      subst hmark
      rw [List.length_modifyHead] at h
      rw [if_pos rfl, ih h, List.modifyHead_modifyHead, List.count_cons_self]
      simp only [Nat.even_add_one, ite_not, Bool.not_not]
      rfl
    · rename_i hmark
      rw [if_neg hmark, List.count_cons_of_ne hmark]
      split at h
      · have hpos := List.length_pos_iff.2 (pieces_ne_nil delimiter quoteMark false x)
        rw [List.length_cons] at h
        omega
      · rename_i hcut
        rw [List.length_modifyHead] at h
        rw [if_neg hcut, ih h, List.modifyHead_modifyHead]
        rfl

/-- **A text is sealed** exactly when its quotes pair up and every delimiter in it stands between
the quotes of a pair. -/
theorem sealed_iff (hne : delimiter ≠ quoteMark) {x : Text} :
    Sealed delimiter x ↔ Even (x.count quoteMark) ∧
      ∀ before after, x = before ++ delimiter :: after → ¬Even (before.count quoteMark) := by
  have huncut : (pieces delimiter quoteMark false x).length = 1 ↔
      ∀ before after, x = before ++ delimiter :: after → ¬Even (before.count quoteMark) := by
    rw [length_pieces_eq_one_iff hne]
    simp
  constructor
  · intro h
    have hone : (pieces delimiter quoteMark false x).length = 1 := by rw [h.pieces_eq]; rfl
    refine ⟨by_contra fun hodd ↦ ?_, huncut.1 hone⟩
    -- Behind an odd number of quotes a delimiter does not cut, but behind a sealed text it does.
    have hcut := (h [delimiter]).symm.trans (pieces_append_of_length_eq_one hone [delimiter])
    rw [if_neg hodd] at hcut
    simpa [pieces, hne] using congrArg List.length hcut
  · rintro ⟨heven, hquoted⟩ t
    rw [pieces_append_of_length_eq_one (huncut.2 hquoted), if_pos heven]

/-- A quote at the end of a text cuts nothing. -/
theorem length_pieces_concat (quoted : Bool) (t : Text) :
    (pieces delimiter quoteMark quoted (t ++ [quoteMark])).length =
      (pieces delimiter quoteMark quoted t).length := by
  induction t generalizing quoted with
  | nil => simp [pieces]
  | cons c t ih =>
    rw [List.cons_append, pieces, pieces]
    split
    · rw [List.length_modifyHead, List.length_modifyHead, ih]
    · split
      · rw [List.length_cons, List.length_cons, ih]
      · rw [List.length_modifyHead, List.length_modifyHead, ih]

/-! ### What the pieces have -/

/-- Nothing is lost: the pieces joined by the delimiter are the text. -/
theorem join_pieces (delimiter : Char) (quoted : Bool) (t : Text) :
    join [delimiter] (pieces delimiter quoteMark quoted t) = t := by
  have hcons (c : Char) {xs : List Text} (hxs : xs ≠ []) :
      join [delimiter] (xs.modifyHead (c :: ·)) = c :: join [delimiter] xs := by
    obtain ⟨x, xs, rfl⟩ := List.exists_cons_of_ne_nil hxs
    cases xs <;> rfl
  induction t generalizing quoted with
  | nil => rfl
  | cons c t ih =>
    rw [pieces]
    split
    · rw [hcons c (pieces_ne_nil _ _ _ _), ih]
    · split
      · rename_i hcut
        rw [join_cons (pieces_ne_nil _ _ _ _), ih, hcut.1]
        rfl
      · rw [hcons c (pieces_ne_nil _ _ _ _), ih]

/-- A text that is not cut is its only piece. -/
theorem pieces_eq_singleton {quoted : Bool} {t : Text}
    (h : (pieces delimiter quoteMark quoted t).length = 1) :
    pieces delimiter quoteMark quoted t = [t] := by
  obtain ⟨x, hx⟩ := List.length_eq_one_iff.1 h
  have hjoin := join_pieces delimiter quoted t
  rw [hx, join] at hjoin
  rw [hx, hjoin]

/-- Pieces are parts of the text. -/
theorem sublist_join {mark : Text} {xs : List Text} {x : Text} (h : x ∈ xs) :
    x.Sublist (join mark xs) := by
  induction xs with
  | nil => cases h
  | cons y ys ih =>
    rcases eq_or_ne ys [] with rfl | hys
    · rw [List.mem_singleton.1 h]
      exact List.Sublist.refl y
    · rw [join_cons hys]
      rcases List.mem_cons.1 h with rfl | h
      · exact (List.sublist_append_left x mark).trans (List.sublist_append_left _ _)
      · exact (ih h).trans (List.sublist_append_right _ _)

/-- A text has as many delimiters more than each of the texts that it was joined from as there are
joints. -/
theorem count_add_length_le {xs : List Text} {x : Text} (h : x ∈ xs) :
    x.count delimiter + xs.length ≤ (join [delimiter] xs).count delimiter + 1 := by
  have hjoints (y : Text) (ys : List Text) :
      y.count delimiter + ys.length ≤ (join [delimiter] (y :: ys)).count delimiter := by
    induction ys generalizing y with
    | nil => exact Nat.le_refl _
    | cons z zs ih =>
      have hrest := ih z
      rw [join_cons (List.cons_ne_nil z zs)]
      simp only [List.count_append, List.count_singleton_self, List.length_cons]
      omega
  induction xs with
  | nil => cases h
  | cons y ys ih =>
    rcases List.mem_cons.1 h with rfl | h
    · have hfirst := hjoints x ys
      rw [List.length_cons]
      omega
    · have hrest := ih h
      rw [join_cons (List.ne_nil_of_mem h)]
      simp only [List.count_append, List.count_singleton_self, List.length_cons]
      omega

/-- The last piece of a text that ends in a quote ends in it too. -/
theorem mem_getLast_pieces (quoted : Bool) (t : Text) {x : Text}
    (h : x ∈ (pieces delimiter quoteMark quoted (t ++ [quoteMark])).getLast?) : quoteMark ∈ x := by
  have hhead (c : Char) {xs : List Text} (hxs : ∀ x ∈ xs.getLast?, quoteMark ∈ x) :
      ∀ x ∈ (xs.modifyHead (c :: ·)).getLast?, quoteMark ∈ x := by
    intro x hx
    rcases xs with - | ⟨y, - | ⟨z, zs⟩⟩
    · cases hx
    · obtain rfl : c :: y = x := Option.some.inj hx
      exact List.mem_cons_of_mem c (hxs y rfl)
    · exact hxs x hx
  induction t generalizing quoted x with
  | nil =>
    obtain rfl : [quoteMark] = x := by simpa [pieces] using h
    exact List.mem_singleton_self _
  | cons c t ih =>
    rw [List.cons_append, pieces] at h
    split at h
    · exact hhead c (fun x ↦ ih _) x h
    · split at h
      · obtain ⟨y, ys, hys⟩ := List.exists_cons_of_ne_nil
          (pieces_ne_nil delimiter quoteMark false (t ++ [quoteMark]))
        rw [hys, List.getLast?_cons_cons, ← hys] at h
        exact ih _ h
      · exact hhead c (fun x ↦ ih _) x h

/-! ### What trimming, splitting and unquoting leave -/

/-- A trimmed text is made of characters of the text, in order. -/
theorem trim_sublist (t : Text) : (trim t).Sublist t := by
  have hstart := List.dropWhile_sublist isBlank (l := t)
  have hend := (List.dropWhile_sublist isBlank (l := (t.dropWhile isBlank).reverse)).reverse
  rw [List.reverse_reverse] at hend
  exact hend.trans hstart

/-- Trimming leaves a character that is not blank. -/
theorem trim_ne_nil {t : Text} {c : Char} (hmem : c ∈ t) (hc : isBlank c = false) :
    trim t ≠ [] := by
  intro hnil
  rw [trim, trimWhere, List.reverse_eq_nil_iff, List.dropWhile_eq_nil_iff] at hnil
  have hstart : c ∈ t.dropWhile isBlank := by
    rcases List.mem_append.1 ((List.takeWhile_append_dropWhile (p := isBlank) (l := t)).symm ▸ hmem)
      with hblank | hmem
    · exact absurd (List.mem_takeWhile_imp hblank) (by simp [hc])
    · exact hmem
  exact absurd (hnil c (List.mem_reverse.2 hstart)) (by simp [hc])

/-- A segment is made of the characters of a piece. -/
theorem exists_of_mem_segments {t x : Text} (h : x ∈ segments delimiter quoteMark t) :
    ∃ piece ∈ pieces delimiter quoteMark false t, x.Sublist piece := by
  obtain ⟨piece, hpiece, rfl⟩ := List.mem_map.1 (List.mem_filter.1 h).1
  exact ⟨piece, hpiece, trim_sublist piece⟩

/-- A segment is a part of a piece. -/
theorem exists_of_mem_split {t x : Text} (h : x ∈ split delimiter t) :
    ∃ piece ∈ pieces delimiter quoteMark false t, x.Sublist piece := by
  rw [split, splitQuoted] at h
  split at h
  · exact exists_of_mem_segments h
  · rename_i hnone
    obtain rfl := List.mem_singleton.1 h
    refine ⟨t, ?_, trim_sublist t⟩
    rw [pieces_of_notMem hnone]
    exact List.mem_singleton_self t

/-- A piece is made of the characters of the text. -/
theorem sublist_of_mem_pieces {quoted : Bool} {t x : Text}
    (h : x ∈ pieces delimiter quoteMark quoted t) : x.Sublist t := by
  have hpart : x.Sublist (join [delimiter] (pieces delimiter quoteMark quoted t)) :=
    sublist_join h
  rwa [join_pieces] at hpart

theorem sublist_of_mem_split {t x : Text} (h : x ∈ split delimiter t) : x.Sublist t := by
  obtain ⟨piece, hpiece, hx⟩ := exists_of_mem_split h
  exact hx.trans (sublist_of_mem_pieces hpiece)

/-- To undouble quotes only takes characters away. -/
theorem undouble_sublist (t : Text) : (undouble t).Sublist t := by
  fun_induction undouble t with
  | case1 => exact List.Sublist.refl _
  | case2 c => exact List.Sublist.refl _
  | case3 c d t _ ih => exact (ih.cons d).cons_cons c
  | case4 c d t _ ih => exact ih.cons_cons c

/-- **Reading doubled quotes as single ones** leaves a text as it is when it has no two quotes in a
row. -/
theorem undouble_eq_self_iff (t : Text) : undouble t = t ↔ ¬[quoteMark, quoteMark] <:+: t := by
  fun_induction undouble t with
  | case1 => simp
  | case2 c =>
    refine iff_of_true rfl fun hinfix ↦ ?_
    have hlen := hinfix.length_le
    simp at hlen
  | case3 c d t hpair ih =>
    obtain ⟨rfl, rfl⟩ := hpair
    refine iff_of_false (fun heq ↦ ?_) (not_not_intro ⟨[], t, rfl⟩)
    have hlen := (undouble_sublist t).length_le
    rw [(List.cons.inj heq).2, List.length_cons] at hlen
    omega
  | case4 c d t hpair ih =>
    have hbegins : ¬[quoteMark, quoteMark] <+: c :: d :: t := by
      rw [List.cons_prefix_cons, List.cons_prefix_cons]
      exact fun h ↦ hpair ⟨h.1.symm, h.2.1.symm⟩
    have hinfix : [quoteMark, quoteMark] <:+: c :: d :: t ↔ [quoteMark, quoteMark] <:+: d :: t :=
      List.infix_cons_iff.trans (or_iff_right hbegins)
    rw [List.cons.injEq, eq_self_iff_true, true_and, ih, hinfix]

/-- To unquote a text only takes characters away. -/
theorem unquote_sublist (t : Text) : (unquote t).Sublist t := by
  refine (undouble_sublist _).trans ?_
  rw [unwrapped]
  split
  · exact (List.dropLast_sublist _).trans (List.tail_sublist t)
  · exact List.Sublist.refl t

end TagTemplate.Text
