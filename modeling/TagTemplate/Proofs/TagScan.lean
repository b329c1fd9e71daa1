import Mathlib.Data.List.Basic
import TagTemplate.Markup.Scan

/-!
# What the scan finds

The scan of content whose delimiters have no character in common. Such delimiters never overlap, and
this makes the scan as simple as it looks: no opening reaches past the end of its tag
(`Separate.overhang_of_close?`), so the search for the next tag begins right behind the last one
(`Separate.scan_eq`), and facts about the scan are shown by induction on the tags that it finds
(`Separate.scan_induction`).

Where a tag ends is decided by the text up to there. A text that begins like the tag has a tag of
its own at its start, and that one reaches at least as far (`Separate.close?_append`). It can reach
further, because a tag that is never balanced ends at the last closing there is.
-/

namespace TagTemplate

/-! ### The first occurrence of a mark -/

namespace Text

variable {mark t before rest : Text}

/-- A text that cannot be cut at a mark does not hold it. -/
theorem not_infix_of_cut? (hne : mark ≠ []) (h : cut? mark t = none) : ¬mark <:+: t := by
  induction t with
  | nil => simpa using hne
  | cons c t ih =>
    rw [cut?] at h
    split at h
    · cases h
    · rename_i hstart
      rw [List.infix_cons_iff]
      rintro (hbegins | hholds)
      · exact hstart (List.isPrefixOf_iff_prefix.2 hbegins)
      · exact ih (Option.map_eq_none_iff.1 h) hholds

/-- A text is cut at the first occurrence of the mark: none begins in what stands before the cut. -/
theorem not_prefix_of_cut? (h : cut? mark t = some (before, rest)) {b : Text} (hb : b <:+ before)
    (hne : b ≠ []) : ¬mark <+: b ++ (mark ++ rest) := by
  induction t generalizing before with
  | nil =>
    rw [cut?] at h
    split at h <;> cases h
    exact absurd (List.suffix_nil.1 hb) hne
  | cons c t ih =>
    rw [cut?] at h
    split at h
    · cases h
      exact absurd (List.suffix_nil.1 hb) hne
    · rename_i hstart
      obtain ⟨⟨before', rest'⟩, hcut, heq⟩ := Option.map_eq_some_iff.1 h
      cases heq
      rcases List.suffix_cons_iff.1 hb with rfl | hb
      · have ht := eq_append_of_cut? hcut
        rw [List.cons_append, ← List.append_assoc, ← ht]
        exact fun hbegins ↦ hstart (List.isPrefixOf_iff_prefix.2 hbegins)
      · exact ih hcut hb

/-- Nothing that stands behind the mark in a text stands outside of what is behind the cut. -/
theorem suffix_of_cut? (h : cut? mark t = some (before, rest)) {before' rest' : Text}
    (ht : t = before' ++ (mark ++ rest')) : rest' <:+ rest := by
  induction t generalizing before before' with
  | nil =>
    rw [(List.append_eq_nil_iff.1 (List.append_eq_nil_iff.1 ht.symm).2).2]
    exact List.nil_suffix
  | cons c t ih =>
    rw [cut?] at h
    split at h
    · -- The text begins with the mark, and no mark begins before its start.
      cases h
      rw [ht, ← List.append_assoc, List.drop_append_of_le_length (by simp)]
      exact List.suffix_append _ _
    · rename_i hstart
      obtain ⟨⟨before, rest⟩, hcut, heq⟩ := Option.map_eq_some_iff.1 h
      cases heq
      rcases before' with - | ⟨a, before'⟩
      · exact absurd (startsWith_iff.2 ⟨rest', ht⟩) hstart
      · exact ih hcut (List.cons.inj ht).2

end Text

@[simp] theorem Piece.filterMap_inner?_plain (t : Text) (pieces : List Piece) :
    (plain t :: pieces).filterMap inner? = pieces.filterMap inner? := rfl

@[simp] theorem Piece.filterMap_inner?_tag (inner : Text) (pieces : List Piece) :
    (tag inner :: pieces).filterMap inner? = inner :: pieces.filterMap inner? := rfl

/-! ### Delimiters that cannot overlap -/

/-- Delimiters that delimit something and have no character in common. -/
structure Delimiters.Separate (d : Delimiters) : Prop where
  opening_ne_nil : d.opening ≠ []
  closing_ne_nil : d.closing ≠ []
  disjoint : List.Disjoint d.opening d.closing

namespace Delimiters

variable {d : Delimiters}

theorem separate_brackets : brackets.Separate :=
  ⟨by decide, by decide, by simp [brackets]⟩

/-- Tags with the same text have the same inner text. -/
theorem wrap_injective (d : Delimiters) : Function.Injective d.wrap := fun inner inner' h ↦ by
  simpa [wrap] using h

namespace Separate

variable (hd : d.Separate)
include hd

theorem usable : d.usable = true := by
  simp [Delimiters.usable, hd.opening_ne_nil, hd.closing_ne_nil]

/-- Whether an opening stands at the start of a text is decided before the next closing. -/
theorem opening_prefix_iff (w r : Text) :
    d.opening <+: w ++ (d.closing ++ r) ↔ d.opening <+: w := by
  refine ⟨fun h ↦ ?_, fun h ↦ h.trans (List.prefix_append _ _)⟩
  rcases List.prefix_or_prefix_of_prefix h (List.prefix_append w _) with hw | ⟨x, hx⟩
  · exact hw
  · -- An opening that reaches past `w` shares its next character with the closing.
    rcases x with - | ⟨a, x⟩
    · exact ⟨[], by rw [← hx, List.append_nil, List.append_nil]⟩
    · obtain ⟨c, closing, hclosing⟩ := List.exists_cons_of_ne_nil hd.closing_ne_nil
      rw [← hx, List.prefix_append_right_inj, hclosing, List.cons_append,
        List.cons_prefix_cons] at h
      exact absurd (hclosing ▸ h.1 ▸ List.mem_cons_self)
        (hd.disjoint (hx ▸ List.mem_append_right w List.mem_cons_self))

/-- No opening stands where a closing does. -/
theorem not_startsWith_opening {t : Text} (h : t.startsWith d.closing = true) :
    t.startsWith d.opening = false := by
  obtain ⟨rest, rfl⟩ := Text.startsWith_iff.1 h
  have hiff := hd.opening_prefix_iff [] rest
  rw [List.nil_append] at hiff
  rw [Text.startsWith, Bool.eq_false_iff]
  exact fun hbegins ↦
    hd.opening_ne_nil (List.prefix_nil.1 (hiff.1 (List.isPrefixOf_iff_prefix.1 hbegins)))

end Separate

/-! ### The end of a tag -/

/-- What the walk seeks next depends on whether an opening stands here. -/
theorem seek_of_startsWith {depth wait : ℕ} {t t' : Text}
    (h : t.startsWith d.opening = t'.startsWith d.opening) :
    d.seek depth wait t = d.seek depth wait t' := by
  rw [seek, seek, h]

/-- Where no closing is read, the character belongs to the tag. -/
theorem close?_cons_of_not {depth openWait closeWait : ℕ} {c : Char} {t : Text}
    (h : ¬(closeWait = 0 ∧ Text.startsWith (c :: t) d.closing = true)) :
    d.close? depth openWait closeWait (c :: t) =
      let sought := d.seek depth openWait (c :: t)
      (d.close? sought.1 (sought.2 - 1) (closeWait - 1) t).map fun later ↦
        { later with inner := c :: later.inner } := by
  rw [close?, if_neg h]

/-- A closing ends the tag when all is balanced. -/
theorem close?_zero_of_closing {openWait : ℕ} {c : Char} {t : Text}
    (h : Text.startsWith (c :: t) d.closing = true) :
    d.close? 0 openWait 0 (c :: t) =
      some ⟨[], (c :: t).drop d.closing.length, openWait - d.closing.length⟩ := by
  rw [close?, if_pos ⟨rfl, h⟩]

/-- A closing that balances an opening inside of the tag ends the tag only when no end is found
behind it. -/
theorem Separate.close?_succ_of_closing (hd : d.Separate) {depth openWait : ℕ} {c : Char} {t : Text}
    (h : Text.startsWith (c :: t) d.closing = true) :
    d.close? (depth + 1) openWait 0 (c :: t) =
      some (((d.close? depth (openWait - 1) (d.closing.length - 1) t).map fun later ↦
        { later with inner := c :: later.inner }).getD
          ⟨[], (c :: t).drop d.closing.length, openWait - d.closing.length⟩) := by
  have hseek : d.seek depth openWait (c :: t) = (depth, openWait) := by
    rw [seek, hd.not_startsWith_opening h]
    simp
  rw [close?, if_pos ⟨rfl, h⟩]
  simp only [hseek]
  cases d.close? depth (openWait - 1) (d.closing.length - 1) t <;> rfl

/-- Where no tag ends, there is no closing. -/
theorem Separate.not_infix_of_close? (hd : d.Separate) {depth openWait : ℕ} {t : Text}
    (h : d.close? depth openWait 0 t = none) : ¬d.closing <:+: t := by
  induction t generalizing depth openWait with
  | nil => simpa using hd.closing_ne_nil
  | cons c t ih =>
    by_cases hclosing : Text.startsWith (c :: t) d.closing = true
    · cases depth with
      | zero => rw [close?_zero_of_closing hclosing] at h; cases h
      | succ depth => rw [hd.close?_succ_of_closing hclosing] at h; cases h
    · rw [close?_cons_of_not (by simp [hclosing]), Option.map_eq_none_iff] at h
      rw [List.infix_cons_iff]
      rintro (hbegins | hholds)
      · exact hclosing (List.isPrefixOf_iff_prefix.2 hbegins)
      · exact ih h hholds

/-- The characters to be waited for belong to an opening, after looking for one as before it. -/
theorem mem_opening_of_seek {depth wait : ℕ} {t : Text} (h : t.take wait ⊆ d.opening) :
    t.take (d.seek depth wait t).2 ⊆ d.opening := by
  rw [seek]
  split
  · rename_i hstart
    obtain ⟨rest, rfl⟩ := Text.startsWith_iff.1 hstart.2
    simp
  · exact h

theorem take_pred_subset {c : Char} {t u : Text} {n : ℕ} (h : (c :: t).take n ⊆ u) :
    t.take (n - 1) ⊆ u := by
  cases n with
  | zero => simp
  | succ n => exact (List.cons_subset.1 h).2

/-- **No opening reaches past the end of its tag.** -/
theorem Separate.overhang_of_close? (hd : d.Separate) {depth openWait closeWait : ℕ} {t : Text}
    {e : TagEnd} (hwait : t.take openWait ⊆ d.opening)
    (h : d.close? depth openWait closeWait t = some e) : e.overhang = 0 := by
  induction t generalizing depth openWait closeWait e with
  | nil => cases h
  | cons c t ih =>
    by_cases hclosing : closeWait = 0 ∧ Text.startsWith (c :: t) d.closing = true
    · obtain ⟨rfl, hclosing⟩ := hclosing
      -- The closing begins here, so no character of an opening is left to be waited for.
      have hzero : openWait - d.closing.length = 0 := by
        rcases openWait with - | openWait
        · exact Nat.zero_sub _
        · obtain ⟨a, closing, ha⟩ := List.exists_cons_of_ne_nil hd.closing_ne_nil
          rw [ha, Text.startsWith, List.isPrefixOf_iff_prefix, List.cons_prefix_cons] at hclosing
          exact absurd (ha ▸ hclosing.1 ▸ List.mem_cons_self)
            (hd.disjoint (List.cons_subset.1 hwait).1)
      cases depth with
      | zero => rw [close?_zero_of_closing hclosing] at h; cases h; exact hzero
      | succ depth =>
        rw [hd.close?_succ_of_closing hclosing] at h
        cases hlater : d.close? depth (openWait - 1) (d.closing.length - 1) t with
        | none => rw [hlater] at h; cases h; exact hzero
        | some later =>
          rw [hlater] at h
          cases h
          exact ih (e := later) (take_pred_subset hwait) hlater
    · rw [close?_cons_of_not hclosing] at h
      obtain ⟨later, hlater, rfl⟩ := Option.map_eq_some_iff.1 h
      exact ih (e := later) (take_pred_subset (mem_opening_of_seek hwait)) hlater

/-- What is read before a closing does not depend on what stands behind it. -/
theorem Separate.startsWith_congr (hd : d.Separate) (w r r' : Text) :
    Text.startsWith (w ++ (d.closing ++ r)) d.closing =
        Text.startsWith (w ++ (d.closing ++ r')) d.closing ∧
      Text.startsWith (w ++ (d.closing ++ r)) d.opening =
        Text.startsWith (w ++ (d.closing ++ r')) d.opening := by
  have hclosing (r : Text) :
      d.closing <+: w ++ (d.closing ++ r) ↔ d.closing <+: w ++ d.closing := by
    rw [← List.append_assoc]
    exact ⟨fun h ↦ List.prefix_of_prefix_length_le h (List.prefix_append _ _) (by simp),
      fun h ↦ h.trans (List.prefix_append _ _)⟩
  constructor
  · rw [Bool.eq_iff_iff]
    simp only [Text.startsWith, List.isPrefixOf_iff_prefix, hclosing]
  · rw [Bool.eq_iff_iff]
    simp only [Text.startsWith, List.isPrefixOf_iff_prefix, hd.opening_prefix_iff]

/-- **A text that begins like a tag has a tag at its start**, and that one is at least as long. -/
theorem Separate.close?_append (hd : d.Separate) {depth openWait closeWait : ℕ} {t : Text}
    {e : TagEnd} (h : d.close? depth openWait closeWait t = some e) (r : Text) :
    ∃ e', d.close? depth openWait closeWait (e.inner ++ (d.closing ++ r)) = some e' ∧
      e.inner.length ≤ e'.inner.length := by
  induction t generalizing depth openWait closeWait e with
  | nil => cases h
  | cons c t ih =>
    -- The last closing there is ends a tag wherever it is read with openings to be closed.
    have hhere {depth openWait : ℕ} :
        ∃ e', d.close? depth openWait 0 (d.closing ++ r) = some e' := by
      obtain ⟨a, closing, ha⟩ := List.exists_cons_of_ne_nil hd.closing_ne_nil
      have hstart : Text.startsWith (a :: (closing ++ r)) d.closing = true := by
        rw [← List.cons_append, ← ha]
        exact Text.startsWith_iff.2 ⟨r, rfl⟩
      rw [ha, List.cons_append]
      cases depth with
      | zero => exact ⟨_, close?_zero_of_closing hstart⟩
      | succ depth => exact ⟨_, hd.close?_succ_of_closing hstart⟩
    by_cases hclosing : closeWait = 0 ∧ Text.startsWith (c :: t) d.closing = true
    · obtain ⟨rfl, hclosing⟩ := hclosing
      cases depth with
      | zero =>
        rw [close?_zero_of_closing hclosing] at h
        cases h
        obtain ⟨e', he'⟩ := hhere
        exact ⟨e', he', Nat.zero_le _⟩
      | succ depth =>
        rw [hd.close?_succ_of_closing hclosing] at h
        cases hlater : d.close? depth (openWait - 1) (d.closing.length - 1) t with
        | none =>
          rw [hlater] at h
          cases h
          obtain ⟨e', he'⟩ := hhere
          exact ⟨e', he', Nat.zero_le _⟩
        | some later =>
          rw [hlater] at h
          cases h
          obtain ⟨e', he', hle⟩ := ih hlater
          have ht := eq_of_close? hlater
          rw [List.append_assoc] at ht
          rw [ht, ← List.cons_append, (hd.startsWith_congr _ _ r).1, List.cons_append] at hclosing
          refine ⟨{ e' with inner := c :: e'.inner }, ?_, Nat.succ_le_succ hle⟩
          change d.close? (depth + 1) openWait 0 (c :: (later.inner ++ (d.closing ++ r))) = _
          rw [hd.close?_succ_of_closing hclosing, he']
          rfl
    · rw [close?_cons_of_not hclosing] at h
      obtain ⟨later, hlater, rfl⟩ := Option.map_eq_some_iff.1 h
      obtain ⟨e', he', hle⟩ := ih hlater
      have ht := eq_of_close? hlater
      rw [List.append_assoc] at ht
      obtain ⟨hsame, hseek⟩ := hd.startsWith_congr (c :: later.inner) later.rest r
      rw [List.cons_append, ← ht, List.cons_append] at hsame hseek
      rw [hsame] at hclosing
      rw [seek_of_startsWith hseek] at he'
      refine ⟨{ e' with inner := c :: e'.inner }, ?_, Nat.succ_le_succ hle⟩
      change d.close? depth openWait closeWait (c :: (later.inner ++ (d.closing ++ r))) = _
      rw [close?_cons_of_not hclosing]
      dsimp only
      rw [he']
      rfl

/-! ### One tag after the other -/

/-- No opening in the text has a closing behind it. -/
def Tagless (d : Delimiters) (t : Text) : Prop :=
  ∀ before inside, t = before ++ (d.opening ++ inside) → ¬d.closing <:+: inside

theorem Separate.scanFrom_zero (hd : d.Separate) (t : Text) :
    d.scanFrom hd.usable 0 t = d.scan t := by
  rw [scan, dif_pos hd.usable]

theorem open?_zero (d : Delimiters) (t : Text) : d.open? 0 t = Text.cut? d.opening t := by
  rw [open?, List.drop_zero]
  cases Text.cut? d.opening t <;> rfl

/-- The scan finds the first opening and the end of its tag, and goes on behind that. -/
theorem Separate.scan_eq (hd : d.Separate) (t : Text) :
    d.scan t = match Text.cut? d.opening t with
      | none => [.plain t]
      | some (before, inside) =>
        match d.close? 0 0 0 inside with
        | none => [.plain t]
        | some e => .plain before :: .tag e.inner :: d.scan e.rest := by
  rw [← hd.scanFrom_zero, scanFrom]
  split
  · rename_i hopen
    rw [open?_zero] at hopen
    rw [hopen]
  · rename_i before inside hopen
    rw [open?_zero] at hopen
    rw [hopen]
    dsimp only
    split
    · rename_i hclose
      rw [hclose]
    · rename_i e hclose
      have hzero : e.overhang = 0 := hd.overhang_of_close? (List.nil_subset _) hclose
      rw [hclose, hzero, hd.scanFrom_zero]

/-- **Induction on the tags that are found.** What holds of a text in which nothing is to be found,
and of a text with a first tag if it holds of what stands behind that tag, holds of every text and
the pieces it is cut into. -/
theorem Separate.scan_induction (hd : d.Separate) {P : Text → List Piece → Prop}
    (tagless : ∀ t, d.Tagless t → P t [.plain t])
    (tag : ∀ (before inside : Text) (e : TagEnd),
      (∀ b, b <:+ before → b ≠ [] → ¬d.opening <+: b ++ (d.opening ++ inside)) →
      d.close? 0 0 0 inside = some e → P e.rest (d.scan e.rest) →
      P (before ++ (d.opening ++ inside)) (.plain before :: .tag e.inner :: d.scan e.rest))
    (t : Text) : P t (d.scan t) := by
  induction hlen : t.length using Nat.strongRecOn generalizing t with
  | ind n ih =>
    rw [hd.scan_eq]
    rcases hcut : Text.cut? d.opening t with - | ⟨before, inside⟩
    · refine tagless t fun before inside ht ↦ ?_
      exact absurd ⟨before, inside, by rw [ht, List.append_assoc]⟩
        (Text.not_infix_of_cut? hd.opening_ne_nil hcut)
    · dsimp only
      have ht := Text.eq_append_of_cut? hcut
      rw [List.append_assoc] at ht
      cases hclose : d.close? 0 0 0 inside with
      | none =>
        -- There is no closing behind the first opening, and so none behind the others.
        refine tagless t fun before' inside' ht' hholds ↦ ?_
        exact hd.not_infix_of_close? hclose (hholds.trans (Text.suffix_of_cut? hcut ht').isInfix)
      | some e =>
        have hrest : e.rest.length < n := by
          have hpos := List.length_pos_iff.2 hd.opening_ne_nil
          have hinside := congrArg List.length (eq_of_close? hclose)
          rw [← hlen, ht]
          simp only [List.length_append] at hinside ⊢
          omega
        rw [ht]
        exact tag before inside e (fun b ↦ Text.not_prefix_of_cut? hcut) hclose
          (ih _ hrest e.rest rfl)

end Delimiters

end TagTemplate
