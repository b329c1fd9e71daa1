import TagTemplate.Proofs.TagScan

/-!
# Where delimiters and tags occur

What the scan says about the places where an opening occurs in a content, with delimiters that have
no character in common. Each of them is inside of an outermost tag, or else behind all of them with
no closing left (`Separate.opening_cases`).

A text that was read as a tag somewhere may occur inside of a tag, at a place where the scan itself
reads no opening, because the characters belong to an opening already read. It ends there all the
same before the tag does (`Separate.close?_inside`). For this the two readings are compared as they
go on side by side: the one that has fewer openings to be closed, or is the later one to read the
next opening, stays so, and it comes to its end first (`Separate.close?_of_ahead`).
-/

namespace TagTemplate

/-- The start of a text that begins with a mark has the characters of the mark. -/
theorem Text.take_subset_of_startsWith {t start : Text} (h : t.startsWith start = true) :
    t.take start.length ⊆ start := by
  rw [← List.prefix_iff_eq_take.1 (List.isPrefixOf_iff_prefix.1 h)]
  exact List.Subset.refl _

namespace Delimiters

variable {d : Delimiters}

/-! ### Places of openings -/

/-- A tag that the scan finds is the tag at its opening. -/
theorem Separate.close?_of_scan (hd : d.Separate) {t inner : Text} {before after : List Piece}
    (h : d.scan t = before ++ .tag inner :: after) :
    ∃ e, d.close? 0 0 0 (inner ++ (d.closing ++ Piece.unite d after)) = some e ∧
      e.inner = inner := by
  induction t using hd.scan_induction generalizing before with
  | tagless t ht =>
    rcases before with - | ⟨piece, before⟩ <;> simp at h
  | tag text inside e _ hclose ih =>
    rcases before with - | ⟨piece, - | ⟨piece', before⟩⟩
    · cases h
    · obtain ⟨-, htag, hafter⟩ : .plain text = piece ∧ e.inner = inner ∧ d.scan e.rest = after := by
        simpa using h
      subst htag hafter
      have hinside := eq_of_close? hclose
      rw [List.append_assoc] at hinside
      rw [unite_scan, ← hinside]
      exact ⟨e, hclose, rfl⟩
    · have hrest : d.scan e.rest = before ++ .tag inner :: after := by
        simp only [List.cons_append, List.cons.injEq] at h
        exact h.2.2
      exact ih hrest

/-- **Where an opening occurs**: inside of an outermost tag, or behind the last one, where no
closing follows. -/
theorem Separate.opening_cases (hd : d.Separate) {t a b : Text} (h : t = a ++ (d.opening ++ b)) :
    (∃ before inner after u v, d.scan t = before ++ .tag inner :: after ∧
      a = Piece.unite d before ++ u ∧ d.wrap inner = u ++ v ∧ v ≠ []) ∨
    ∃ before last u, d.scan t = before ++ [.plain last] ∧ a = Piece.unite d before ++ u ∧
      ¬d.closing <:+: b := by
  induction t using hd.scan_induction generalizing a with
  | tagless t ht => exact .inr ⟨[], t, a, rfl, rfl, ht a b h⟩
  | tag text inside e hbefore hclose ih =>
    -- What is found behind the first tag is found in the whole.
    have hbehind (a' : Text) (ha : a = text ++ (d.wrap e.inner ++ a'))
        (hrest : e.rest = a' ++ (d.opening ++ b)) :
        (∃ before inner after u v,
          .plain text :: .tag e.inner :: d.scan e.rest = before ++ .tag inner :: after ∧
          a = Piece.unite d before ++ u ∧ d.wrap inner = u ++ v ∧ v ≠ []) ∨
        ∃ before last u, .plain text :: .tag e.inner :: d.scan e.rest = before ++ [.plain last] ∧
          a = Piece.unite d before ++ u ∧ ¬d.closing <:+: b := by
      have hunite (before : List Piece) (u : Text) (ha' : a' = Piece.unite d before ++ u) :
          a = Piece.unite d (.plain text :: .tag e.inner :: before) ++ u := by
        simp [ha, ha', Piece.unite, Piece.written]
      rcases ih hrest with ⟨before, inner, after, u, v, hscan, ha', huv⟩ |
        ⟨before, last, u, hscan, ha', hb⟩
      · exact .inl ⟨.plain text :: .tag e.inner :: before, inner, after, u, v, by rw [hscan]; rfl,
          hunite before u ha', huv⟩
      · exact .inr ⟨.plain text :: .tag e.inner :: before, last, u, by rw [hscan]; rfl,
          hunite before u ha', hb⟩
    have hinside : d.opening ++ inside = d.wrap e.inner ++ e.rest := by
      rw [eq_of_close? hclose]
      simp [wrap]
    rcases List.append_eq_append_iff.1 h with ⟨c, ha, hc⟩ | ⟨x, htext, hx⟩
    · rw [hinside] at hc
      rcases List.append_eq_append_iff.1 hc with ⟨a', rfl, hrest⟩ | ⟨v, hwrap, hv⟩
      · exact hbehind a' ha hrest
      · rcases eq_or_ne v [] with rfl | hne
        · rw [List.append_nil] at hwrap
          exact hbehind [] (by rw [ha, hwrap, List.append_nil]) (by simpa using hv.symm)
        · exact .inl ⟨[.plain text], e.inner, d.scan e.rest, c, v, rfl,
            by simpa [Piece.unite, Piece.written] using ha, hwrap, hne⟩
    · -- No opening begins in the text before the tag.
      rcases eq_or_ne x [] with rfl | hne
      · have hwrap : d.wrap e.inner ≠ [] := by simp [wrap, hd.opening_ne_nil]
        refine .inl ⟨[.plain text], e.inner, d.scan e.rest, [], d.wrap e.inner, rfl, ?_, rfl, hwrap⟩
        simpa [Piece.unite, Piece.written] using htext.symm
      · exact absurd (hx ▸ List.prefix_append _ _) (hbefore x ⟨a, htext.symm⟩ hne)

/-! ### Two readings side by side -/

/-- Whether the end of a tag is found does not depend on how many openings are to be closed. -/
theorem isSome_close? (depth openWait depth' openWait' closeWait : ℕ) (t : Text) :
    (d.close? depth openWait closeWait t).isSome =
      (d.close? depth' openWait' closeWait t).isSome := by
  induction t generalizing depth openWait depth' openWait' closeWait with
  | nil => rfl
  | cons c t ih =>
    have hfound {depth openWait : ℕ}
        (hclosing : closeWait = 0 ∧ Text.startsWith (c :: t) d.closing = true) :
        (d.close? depth openWait closeWait (c :: t)).isSome = true := by
      rw [close?, if_pos hclosing]
      cases depth with
      | zero => rfl
      | succ depth => dsimp only; split <;> rfl
    by_cases hclosing : closeWait = 0 ∧ Text.startsWith (c :: t) d.closing = true
    · rw [hfound hclosing, hfound hclosing]
    · rw [close?_cons_of_not hclosing, close?_cons_of_not hclosing]
      dsimp only
      rw [Option.isSome_map, Option.isSome_map]
      exact ih ..

/-- A reading, given by the openings that are to be closed and the characters until the next one can
be read, that has less to go than another one: it has fewer openings to be closed; or equally many,
and is not the first one to read the next opening. -/
def Ahead (d : Delimiters) (first second : ℕ × ℕ) : Prop :=
  second.2 ≤ d.opening.length ∧
    (first.1 < second.1 ∨ first.1 = second.1 ∧ second.2 ≤ first.2)

/-- A reading that is ahead stays ahead when both look for an opening and go on. -/
theorem Ahead.seek {depth openWait depth' openWait' : ℕ}
    (h : d.Ahead (depth, openWait) (depth', openWait')) (t : Text) :
    d.Ahead ((d.seek depth openWait t).1, (d.seek depth openWait t).2 - 1)
      ((d.seek depth' openWait' t).1, (d.seek depth' openWait' t).2 - 1) := by
  obtain ⟨hlen, hahead⟩ := h
  simp only [Ahead, Delimiters.seek] at hlen hahead ⊢
  by_cases hstart : t.startsWith d.opening = true
  · simp only [hstart, and_true]
    split_ifs <;> dsimp only <;> omega
  · simp only [hstart, Bool.false_eq_true, and_false, if_false]
    omega

/-- **The reading that is ahead ends first.** -/
theorem Separate.close?_of_ahead (hd : d.Separate) {depth openWait depth' openWait' closeWait : ℕ}
    {t : Text} {e' : TagEnd} (hahead : d.Ahead (depth, openWait) (depth', openWait'))
    (h : d.close? depth' openWait' closeWait t = some e') :
    ∃ e, d.close? depth openWait closeWait t = some e ∧ e.inner.length ≤ e'.inner.length := by
  induction t generalizing depth openWait depth' openWait' closeWait e' with
  | nil => cases h
  | cons c t ih =>
    by_cases hclosing : closeWait = 0 ∧ Text.startsWith (c :: t) d.closing = true
    · obtain ⟨rfl, hclosing⟩ := hclosing
      rcases depth with - | depth
      · exact ⟨_, close?_zero_of_closing hclosing, Nat.zero_le _⟩
      · obtain ⟨depth', rfl⟩ : ∃ k, depth' = k + 1 :=
          Nat.exists_eq_succ_of_ne_zero (by have := hahead.2; dsimp only at this; omega)
        have hnext : d.Ahead (depth, openWait - 1) (depth', openWait' - 1) := by
          simp only [Ahead] at hahead ⊢
          omega
        rw [hd.close?_succ_of_closing hclosing] at h ⊢
        refine ⟨_, rfl, ?_⟩
        cases hlater : d.close? depth' (openWait' - 1) (d.closing.length - 1) t with
        | none =>
          -- Then the other reading finds no end behind this closing either.
          have hnone : d.close? depth (openWait - 1) (d.closing.length - 1) t = none := by
            rw [← Option.not_isSome_iff_eq_none,
              isSome_close? depth (openWait - 1) depth' (openWait' - 1), hlater]
            exact Bool.false_ne_true
          rw [hnone]
          exact Nat.zero_le _
        | some later' =>
          obtain ⟨later, hfirst, hle⟩ := ih hnext hlater
          rw [hlater] at h
          cases h
          rw [hfirst]
          exact Nat.succ_le_succ hle
    · rw [close?_cons_of_not hclosing] at h ⊢
      obtain ⟨later', hlater, rfl⟩ := Option.map_eq_some_iff.1 h
      obtain ⟨later, hfirst, hle⟩ := ih (hahead.seek (c :: t)) hlater
      dsimp only
      rw [hfirst]
      exact ⟨_, rfl, Nat.succ_le_succ hle⟩

/-! ### A tag inside of a tag -/

/-- Where characters of an opening stand, no closing is read. -/
theorem Separate.not_closing_of_mem (hd : d.Separate) {c : Char} (hc : c ∈ d.opening) (t : Text) :
    ¬Text.startsWith (c :: t) d.closing = true := by
  obtain ⟨a, closing, ha⟩ := List.exists_cons_of_ne_nil hd.closing_ne_nil
  intro hstart
  rw [ha, Text.startsWith, List.isPrefixOf_iff_prefix, List.cons_prefix_cons] at hstart
  exact hd.disjoint hc (ha ▸ hstart.1 ▸ List.mem_cons_self)

/-- Reading goes on behind the rest of an opening that is being waited for. -/
theorem Separate.close?_append_opening (hd : d.Separate) {depth : ℕ} {w : Text} (hw : w ⊆ d.opening)
    (t : Text) :
    d.close? depth w.length 0 (w ++ t) =
      (d.close? depth 0 0 t).map fun e ↦ { e with inner := w ++ e.inner } := by
  induction w with
  | nil => simp
  | cons c w ih =>
    rw [List.cons_subset] at hw
    have hseek : d.seek depth (c :: w).length (c :: (w ++ t)) = (depth, (c :: w).length) := by
      simp [seek]
    rw [List.cons_append, close?_cons_of_not fun h ↦ hd.not_closing_of_mem hw.1 _ h.2, hseek]
    show (d.close? depth w.length 0 (w ++ t)).map _ = _
    rw [ih hw.2, Option.map_map]
    rfl

/-- The tag at an opening ends before any tag does that the opening stands in: the reading from
there waits for the rest of this opening, with nothing to be closed. -/
theorem Separate.close?_of_opening (hd : d.Separate) {depth openWait : ℕ} {y : Text} {e : TagEnd}
    (hopen : openWait ≤ d.opening.length)
    (h : d.close? depth openWait 0 (d.opening ++ y) = some e) :
    ∃ e', d.close? 0 0 0 y = some e' ∧ d.opening.length + e'.inner.length ≤ e.inner.length := by
  obtain ⟨o, opening, ho⟩ := List.exists_cons_of_ne_nil hd.opening_ne_nil
  have hmem : o ∈ d.opening := ho ▸ List.mem_cons_self
  have hrest : opening ⊆ d.opening := ho ▸ List.subset_cons_self o opening
  have hlen : d.opening.length = opening.length + 1 := by rw [ho]; rfl
  rw [ho, List.cons_append, close?_cons_of_not fun h ↦ hd.not_closing_of_mem hmem _ h.2] at h
  obtain ⟨later, hlater, rfl⟩ := Option.map_eq_some_iff.1 h
  have hahead : d.Ahead (0, opening.length)
      ((d.seek depth openWait (o :: (opening ++ y))).1,
        (d.seek depth openWait (o :: (opening ++ y))).2 - 1) := by
    have hstart : Text.startsWith (o :: (opening ++ y)) d.opening = true :=
      Text.startsWith_iff.2 ⟨y, by rw [ho]; rfl⟩
    simp only [Ahead, seek, hstart, and_true]
    split_ifs <;> dsimp only <;> omega
  obtain ⟨first, hfirst, hle⟩ := hd.close?_of_ahead hahead hlater
  rw [hd.close?_append_opening hrest] at hfirst
  obtain ⟨e', he', rfl⟩ := Option.map_eq_some_iff.1 hfirst
  refine ⟨e', he', ?_⟩
  simp only [hlen, List.length_cons, List.length_append] at hle ⊢
  omega

/-- A closing ends before an opening behind it begins. -/
theorem Separate.length_le_of_closing (hd : d.Separate) {x y : Text}
    (h : Text.startsWith (x ++ (d.opening ++ y)) d.closing = true) :
    d.closing.length ≤ x.length := by
  refine Nat.not_lt.1 fun hlt ↦ ?_
  obtain ⟨o, opening, ho⟩ := List.exists_cons_of_ne_nil hd.opening_ne_nil
  have hbegins : x ++ [o] <+: d.closing := by
    refine List.prefix_of_prefix_length_le ⟨opening ++ y, ?_⟩ (List.isPrefixOf_iff_prefix.1 h)
      (by simpa using Nat.succ_le_of_lt hlt)
    rw [ho]
    simp
  exact hd.disjoint (ho ▸ List.mem_cons_self)
    (hbegins.subset (List.mem_append_right _ List.mem_cons_self))

/-- **A tag that begins inside of a tag ends before it**: when an opening occurs before the end that
is found for a tag, reading a tag from there finds an end no further on. -/
theorem Separate.close?_inside (hd : d.Separate) {depth openWait closeWait : ℕ} {x y : Text}
    {e : TagEnd} (hopen : openWait ≤ d.opening.length)
    (hclose : (x ++ (d.opening ++ y)).take closeWait ⊆ d.closing)
    (h : d.close? depth openWait closeWait (x ++ (d.opening ++ y)) = some e)
    (hx : x.length < e.inner.length + d.closing.length) :
    ∃ e', d.close? 0 0 0 y = some e' ∧
      x.length + d.opening.length + e'.inner.length ≤ e.inner.length := by
  induction x generalizing depth openWait closeWait e with
  | nil =>
    obtain rfl : closeWait = 0 := by
      rcases closeWait with - | closeWait
      · rfl
      · obtain ⟨o, opening, ho⟩ := List.exists_cons_of_ne_nil hd.opening_ne_nil
        rw [List.nil_append, ho] at hclose
        exact absurd (List.cons_subset.1 hclose).1 (hd.disjoint (ho ▸ List.mem_cons_self))
    obtain ⟨e', he', hle⟩ := hd.close?_of_opening hopen h
    exact ⟨e', he', by simpa using hle⟩
  | cons c x ih =>
    -- What is found behind the first character is found in the whole.
    have hbehind {later : TagEnd} (heq : e = { later with inner := c :: later.inner })
        {depth openWait closeWait : ℕ} (hopen : openWait ≤ d.opening.length)
        (hclose : (x ++ (d.opening ++ y)).take closeWait ⊆ d.closing)
        (hlater : d.close? depth openWait closeWait (x ++ (d.opening ++ y)) = some later) :
        ∃ e', d.close? 0 0 0 y = some e' ∧
          (c :: x).length + d.opening.length + e'.inner.length ≤ e.inner.length := by
      subst heq
      obtain ⟨e', he', hle⟩ := ih hopen hclose hlater (by simpa [Nat.add_right_comm] using hx)
      refine ⟨e', he', ?_⟩
      simp only [List.length_cons] at hle ⊢
      omega
    rw [List.cons_append] at h hclose
    by_cases hclosing :
        closeWait = 0 ∧ Text.startsWith (c :: (x ++ (d.opening ++ y))) d.closing = true
    · obtain ⟨rfl, hstart⟩ := hclosing
      have hfar : d.closing.length ≤ (c :: x).length := hd.length_le_of_closing hstart
      -- So this closing does not end the tag: the opening would stand behind the end.
      rcases depth with - | depth
      · rw [close?_zero_of_closing hstart] at h
        obtain rfl := Option.some.inj h
        exact absurd (by simpa using hx) (Nat.not_lt.2 hfar)
      · rw [hd.close?_succ_of_closing hstart] at h
        rcases hlater : d.close? depth (openWait - 1) (d.closing.length - 1)
          (x ++ (d.opening ++ y)) with - | later <;> rw [hlater] at h <;>
          obtain rfl := Option.some.inj h
        · exact absurd (by simpa using hx) (Nat.not_lt.2 hfar)
        · exact hbehind rfl (by omega)
            (take_pred_subset (Text.take_subset_of_startsWith hstart)) hlater
    · rw [close?_cons_of_not hclosing] at h
      obtain ⟨later, hlater, heq⟩ := Option.map_eq_some_iff.1 h
      have hseek : (d.seek depth openWait (c :: (x ++ (d.opening ++ y)))).2 - 1 ≤
          d.opening.length := by
        simp only [seek]
        split_ifs <;> dsimp only <;> omega
      exact hbehind heq.symm hseek (take_pred_subset hclose) hlater

end Delimiters

end TagTemplate
