import Mathlib.Data.List.Infix
import TagTemplate.Proofs.Occurrence

/-!
# The scan by counting delimiters

The scan walks over a content with counters that say how much is still to be closed and how much is
still to be waited for. Here the same tags are described by what stands in the content: its
delimiters are read as tokens from left to right, and a tag ends at the first closing up to which as
many closings as openings were read, or at the last closing if there is no such one. The tags that
are found so are counted out by `countedFrom`, one behind the other.

The two descriptions agree when the delimiters have no character in common
(`Delimiters.Separate.spans_scan`). Otherwise an opening could begin inside of a closing: the scan
reads both of them, and waits for the end of each on its own, while tokens do not overlap. What
carries the induction is that, with delimiters that have no character in common, only one of the two
is ever being waited for.
-/

namespace TagTemplate

/-! ### Positions -/

/-- Where the first occurrence of the mark begins, in characters. -/
def Text.firstIndex? (mark t : Text) : Option ℕ :=
  t.tails.findIdx? fun rest ↦ Text.startsWith rest mark

/-- A text is cut where the mark begins for the first time. -/
theorem Text.cut?_eq (mark t : Text) :
    cut? mark t = (firstIndex? mark t).map fun i ↦ (t.take i, t.drop (i + mark.length)) := by
  induction t with
  | nil => cases mark <;> simp [cut?, firstIndex?, startsWith]
  | cons c t ih =>
    rw [cut?, firstIndex?, List.tails, List.findIdx?_cons]
    by_cases hstart : startsWith (c :: t) mark = true
    · rw [if_pos hstart, if_pos hstart]
      simp
    · rw [if_neg hstart, if_neg hstart, ih, firstIndex?, Option.map_map, Option.map_map]
      congr 1
      funext i
      simp [Nat.add_right_comm]

/-! ### Tokens -/

namespace Delimiters

/-- One of the two delimiters. -/
inductive Mark
  | opening
  | closing
deriving DecidableEq, Repr

/-- A delimiter that was read, behind so many characters. -/
structure Token where
  mark : Mark
  start : ℕ
deriving DecidableEq, Repr

/-- How the delimiter is written. -/
def text (d : Delimiters) : Mark → Text
  | .opening => d.opening
  | .closing => d.closing

/-- The delimiter at the start of the text. -/
def markAt? (d : Delimiters) (t : Text) : Option Mark :=
  if t.startsWith d.opening then some .opening
  else if t.startsWith d.closing then some .closing
  else none

/-- The delimiters in a text behind `position` characters, from left to right and without overlap.
The first `skip` characters belong to a delimiter already read. -/
def tokensFrom (d : Delimiters) : (position skip : ℕ) → Text → List Token
  | _, _, [] => []
  | position, skip + 1, _ :: t => tokensFrom d (position + 1) skip t
  | position, 0, c :: t =>
    match d.markAt? (c :: t) with
    | none => tokensFrom d (position + 1) 0 t
    | some mark => ⟨mark, position⟩ :: tokensFrom d (position + 1) ((d.text mark).length - 1) t

namespace Token

/-- How often the delimiter was read. -/
def count (mark : Mark) (read : List Token) : ℕ := read.countP (·.mark = mark)

/-- As many closings as openings were read, where `opened` openings stand before the tokens. -/
def Balanced (opened : ℕ) (read : List Token) : Prop :=
  count .closing read = opened + count .opening read

instance (opened : ℕ) (read : List Token) : Decidable (Balanced opened read) :=
  inferInstanceAs (Decidable (_ = _))

/-- What was read at each of the closings, up to and with the closing. -/
def readings (tokens : List Token) : List (List Token) :=
  tokens.inits.filter fun read ↦ read.getLast?.any (·.mark = .closing)

/-- What was read at the first closing at which all is balanced, else at the last closing. -/
def reading? (opened : ℕ) (tokens : List Token) : Option (List Token) :=
  ((readings tokens).find? (Balanced opened ·)).or (readings tokens).getLast?

/-- The closing at which a tag ends. -/
def closer? (opened : ℕ) (tokens : List Token) : Option Token :=
  (reading? opened tokens).bind List.getLast?

end Token

/-- The text before the first opening, the inner text of the tag that begins there, and the text
behind that tag, which is found by counting. -/
def counted? (d : Delimiters) (t : Text) : Option (Text × Text × Text) := do
  let start ← Text.firstIndex? d.opening t
  let inside := t.drop (start + d.opening.length)
  if d.closing <:+: inside then
    let last ← Token.closer? 1 (d.tokensFrom 0 0 inside)
    return (t.take start, inside.take last.start, inside.drop (last.start + d.closing.length))
  else none

/-- Each tag that is counted out leaves a shorter text. -/
theorem length_lt_of_counted? {d : Delimiters} (hd : d.opening ≠ []) {t before inner rest : Text}
    (h : d.counted? t = some (before, inner, rest)) : rest.length < t.length := by
  rw [counted?] at h
  obtain ⟨start, hstart, h⟩ := Option.bind_eq_some_iff.1 h
  dsimp only at h
  split_ifs at h
  obtain ⟨last, -, h⟩ := Option.bind_eq_some_iff.1 h
  cases h
  have hcut : Text.cut? d.opening t = some (t.take start, t.drop (start + d.opening.length)) := by
    rw [Text.cut?_eq, hstart]
    rfl
  have hlen := congrArg List.length (Text.eq_append_of_cut? hcut)
  have hpos := List.length_pos_iff.2 hd
  simp only [List.length_append] at hlen
  rw [List.length_drop]
  omega

/-- The spans of the tags in a text behind `position` bytes: that of the first one, and those behind
it. -/
def countedFrom (d : Delimiters) (hd : d.opening ≠ []) (position : ℕ) (t : Text) : List Span :=
  match _h : d.counted? t with
  | none => []
  | some (before, inner, rest) =>
    let start := position + before.size
    let stop := start + (d.wrap inner).size
    ⟨inner, start, stop⟩ :: countedFrom d hd stop rest
termination_by t.length
decreasing_by exact length_lt_of_counted? hd _h

theorem countedFrom_of_none {d : Delimiters} (hd : d.opening ≠ []) (position : ℕ) {t : Text}
    (h : d.counted? t = none) : d.countedFrom hd position t = [] := by
  rw [countedFrom]
  split
  · rfl
  · simp_all

theorem countedFrom_of_some {d : Delimiters} (hd : d.opening ≠ []) (position : ℕ)
    {t before inner rest : Text} (h : d.counted? t = some (before, inner, rest)) :
    d.countedFrom hd position t =
      ⟨inner, position + before.size, position + before.size + (d.wrap inner).size⟩ ::
        d.countedFrom hd (position + before.size + (d.wrap inner).size) rest := by
  rw [countedFrom]
  split
  · simp_all
  · simp_all

/-! ### Reading one token more -/

namespace Token

variable {tok : Token} {tokens : List Token} {opened : ℕ}

/-- With a token in front, what is read at each closing has that token more, and the token itself
may be a closing. -/
theorem readings_cons (tok : Token) (tokens : List Token) :
    readings (tok :: tokens) =
      (if tok.mark = .closing then [[tok]] else []) ++ (readings tokens).map (tok :: ·) := by
  rcases tokens with - | ⟨next, tokens⟩
  · by_cases h : tok.mark = .closing <;> simp [readings, h]
  · by_cases h : tok.mark = .closing <;>
      simp [readings, List.filter_map, Function.comp_def, h, List.getLast?_cons_cons]

theorem ne_nil_of_mem_readings {read : List Token} (h : read ∈ readings tokens) : read ≠ [] := by
  rintro rfl
  simp [readings] at h

theorem ne_nil_of_reading? {read : List Token} (h : reading? opened tokens = some read) :
    read ≠ [] := by
  rcases Option.or_eq_some_iff.1 h with h | ⟨-, h⟩
  · exact ne_nil_of_mem_readings (List.mem_of_find?_eq_some h)
  · exact ne_nil_of_mem_readings (List.mem_of_getLast? h)

/-- One token more in front changes what was read, not where the tag ends. -/
theorem bind_getLast?_map_cons (tok : Token) :
    ((reading? opened tokens).map (tok :: ·)).bind List.getLast? = closer? opened tokens := by
  rw [closer?]
  cases h : reading? opened tokens with
  | none => rfl
  | some read =>
    obtain ⟨next, read, rfl⟩ := List.exists_cons_of_ne_nil (ne_nil_of_reading? h)
    exact List.getLast?_cons_cons

/-- Where a token in front only shifts the balance, the first balanced reading with it is the one
without it. -/
theorem find?_balanced_map_cons {opened' : ℕ} (tok : Token)
    (h : ∀ read, Balanced opened' (tok :: read) ↔ Balanced opened read)
    (reads : List (List Token)) :
    (reads.map (tok :: ·)).find? (Balanced opened' ·) =
      (reads.find? (Balanced opened ·)).map (tok :: ·) := by
  have hshift : (fun read ↦ decide (Balanced opened' read)) ∘ (tok :: ·) =
      fun read ↦ decide (Balanced opened read) :=
    funext fun read ↦ decide_eq_decide.2 (h read)
  rw [List.find?_map, hshift]

/-- An opening needs one more closing. -/
theorem closer?_opening (position : ℕ) :
    closer? opened (⟨.opening, position⟩ :: tokens) = closer? (opened + 1) tokens := by
  have hbalanced (read : List Token) :
      Balanced opened (⟨.opening, position⟩ :: read) ↔ Balanced (opened + 1) read := by
    simp only [Balanced, count, List.countP_cons]
    simp
    omega
  have hreading : reading? opened (⟨.opening, position⟩ :: tokens) =
      (reading? (opened + 1) tokens).map (⟨.opening, position⟩ :: ·) := by
    simp [reading?, readings_cons, find?_balanced_map_cons _ hbalanced, Option.map_or]
  rw [closer?, hreading, bind_getLast?_map_cons]

/-- The closing that is needed ends the tag. -/
theorem closer?_one_closing (position : ℕ) :
    closer? 1 (⟨.closing, position⟩ :: tokens) = some ⟨.closing, position⟩ := by
  rw [closer?, reading?, readings_cons]
  simp [Balanced, count]

/-- A closing with more of them to come ends the tag when it is the last one. -/
theorem closer?_succ_closing (position : ℕ) :
    closer? (opened + 2) (⟨.closing, position⟩ :: tokens) =
      some ((closer? (opened + 1) tokens).getD ⟨.closing, position⟩) := by
  have hbalanced (read : List Token) :
      Balanced (opened + 2) (⟨.closing, position⟩ :: read) ↔ Balanced (opened + 1) read := by
    simp only [Balanced, count, List.countP_cons]
    simp
    omega
  have hnot : ¬Balanced (opened + 2) [⟨.closing, position⟩] := by simp [Balanced, count]
  have hreading : reading? (opened + 2) (⟨.closing, position⟩ :: tokens) =
      some (((reading? (opened + 1) tokens).map (⟨.closing, position⟩ :: ·)).getD
        [⟨.closing, position⟩]) := by
    simp [reading?, readings_cons, hnot, find?_balanced_map_cons _ hbalanced, List.getLast?_cons]
  rw [closer?, closer?, hreading]
  cases h : reading? (opened + 1) tokens with
  | none => rfl
  | some read =>
    have hlast : read.getLast? = some (read.getLast (ne_nil_of_reading? h)) :=
      List.getLast?_eq_some_getLast _
    show (⟨.closing, position⟩ :: read).getLast? = some (read.getLast?.getD _)
    rw [List.getLast?_cons, hlast]

end Token

/-! ### The end of a tag is counted out -/

variable {d : Delimiters}

/-- Where characters of a closing stand, no opening is read. -/
theorem Separate.not_opening_of_mem (hd : d.Separate) {c : Char} (hc : c ∈ d.closing) (t : Text) :
    ¬Text.startsWith (c :: t) d.opening = true := by
  obtain ⟨a, opening, ha⟩ := List.exists_cons_of_ne_nil hd.opening_ne_nil
  intro hstart
  rw [ha, Text.startsWith, List.isPrefixOf_iff_prefix, List.cons_prefix_cons] at hstart
  exact hd.disjoint (ha ▸ hstart.1 ▸ List.mem_cons_self) hc

/-! One step, where no character belongs to a delimiter already read. -/

section Step

variable {c : Char} {t : Text} (position : ℕ)

/-- An opening is a token, and its other characters are passed over. -/
theorem tokensFrom_of_opening (h : Text.startsWith (c :: t) d.opening = true) :
    d.tokensFrom position 0 (c :: t) =
      ⟨.opening, position⟩ :: d.tokensFrom (position + 1) (d.opening.length - 1) t := by
  rw [tokensFrom, markAt?, if_pos h]
  rfl

/-- So is a closing, where no opening begins. -/
theorem tokensFrom_of_closing (hopening : ¬Text.startsWith (c :: t) d.opening = true)
    (h : Text.startsWith (c :: t) d.closing = true) :
    d.tokensFrom position 0 (c :: t) =
      ⟨.closing, position⟩ :: d.tokensFrom (position + 1) (d.closing.length - 1) t := by
  rw [tokensFrom, markAt?, if_neg hopening, if_pos h]
  rfl

theorem tokensFrom_of_not (hopening : ¬Text.startsWith (c :: t) d.opening = true)
    (hclosing : ¬Text.startsWith (c :: t) d.closing = true) :
    d.tokensFrom position 0 (c :: t) = d.tokensFrom (position + 1) 0 t := by
  rw [tokensFrom, markAt?, if_neg hopening, if_neg hclosing]

end Step

/-- The end of a tag in a content whose closing stands at the token. -/
def Token.tagEnd (d : Delimiters) (content : Text) (last : Token) : TagEnd :=
  ⟨content.take last.start, content.drop (last.start + d.closing.length), 0⟩

/-- Walking on from some place of a content finds the end of the tag where counting on from there
does: behind what was seen, with openings to be closed, and within an opening or a closing. -/
def Agree (d : Delimiters) (depth openWait closeWait : ℕ) (seen t : Text) : Prop :=
  (d.close? depth openWait closeWait t).map (fun e ↦ { e with inner := seen ++ e.inner }) =
    (Token.closer? (depth + 1) (d.tokensFrom seen.length (openWait + closeWait) t)).map
      (Token.tagEnd d (seen ++ t))

namespace Agree

variable {depth openWait closeWait : ℕ} {seen t : Text} {c : Char}

/-- One character more that was seen belongs to the inner text. -/
theorem append_iff :
    d.Agree depth openWait closeWait (seen ++ [c]) t ↔
      ((d.close? depth openWait closeWait t).map fun e ↦ { e with inner := c :: e.inner }).map
          (fun e ↦ { e with inner := seen ++ e.inner }) =
        (Token.closer? (depth + 1) (d.tokensFrom (seen.length + 1) (openWait + closeWait) t)).map
          (Token.tagEnd d (seen ++ c :: t)) := by
  simp [Agree, Function.comp_def]

/-- Where no delimiter is read, the character belongs to the tag. -/
theorem cons_of_not (hclosing : ¬(closeWait = 0 ∧ Text.startsWith (c :: t) d.closing = true))
    (hseek : d.seek depth openWait (c :: t) = (depth, openWait))
    (htokens : d.tokensFrom seen.length (openWait + closeWait) (c :: t) =
      d.tokensFrom (seen.length + 1) (openWait - 1 + (closeWait - 1)) t)
    (h : d.Agree depth (openWait - 1) (closeWait - 1) (seen ++ [c]) t) :
    d.Agree depth openWait closeWait seen (c :: t) := by
  rw [Agree, close?_cons_of_not hclosing, hseek, htokens]
  exact append_iff.1 h

/-- The walk and the count agree at an opening if they agree behind it, one level deeper. -/
theorem cons_of_opening (hd : d.Separate) (hopening : Text.startsWith (c :: t) d.opening = true)
    (h : d.Agree (depth + 1) (d.opening.length - 1) 0 (seen ++ [c]) t) :
    d.Agree depth 0 0 seen (c :: t) := by
  have hclosing : ¬Text.startsWith (c :: t) d.closing = true := by
    intro hclosing
    rw [hd.not_startsWith_opening hclosing] at hopening
    exact Bool.false_ne_true hopening
  have hseek : d.seek depth 0 (c :: t) = (depth + 1, d.opening.length) := by
    rw [seek, if_pos ⟨rfl, hopening⟩]
  rw [Agree, close?_cons_of_not fun h ↦ hclosing h.2, hseek, tokensFrom_of_opening _ hopening,
    Token.closer?_opening]
  exact append_iff.1 h

theorem tagEnd_here :
    Token.tagEnd d (seen ++ t) ⟨.closing, seen.length⟩ = ⟨seen, t.drop d.closing.length, 0⟩ := by
  simp [Token.tagEnd]

/-- They agree at the closing that ends the tag. -/
theorem cons_of_closing_zero (hopening : ¬Text.startsWith (c :: t) d.opening = true)
    (hclosing : Text.startsWith (c :: t) d.closing = true) : d.Agree 0 0 0 seen (c :: t) := by
  rw [Agree, tokensFrom_of_closing _ hopening hclosing, close?_zero_of_closing hclosing,
    Token.closer?_one_closing, Option.map_some, Option.map_some, tagEnd_here]
  simp

/-- They agree at any other closing if they agree behind it, one level up. -/
theorem cons_of_closing_succ (hd : d.Separate)
    (hopening : ¬Text.startsWith (c :: t) d.opening = true)
    (hclosing : Text.startsWith (c :: t) d.closing = true)
    (h : d.Agree depth 0 (d.closing.length - 1) (seen ++ [c]) t) :
    d.Agree (depth + 1) 0 0 seen (c :: t) := by
  have hlater := append_iff.1 h
  rw [Nat.zero_add] at hlater
  rw [Agree, tokensFrom_of_closing _ hopening hclosing, hd.close?_succ_of_closing hclosing,
    Token.closer?_succ_closing, Option.map_some, Option.map_some,
    ← Option.getD_map (Token.tagEnd d (seen ++ c :: t)), ← hlater, tagEnd_here]
  rcases d.close? depth (0 - 1) (d.closing.length - 1) t with - | later <;> simp

end Agree

/-- **The end of a tag is where counting ends.** -/
theorem Separate.agree (hd : d.Separate) {depth openWait closeWait : ℕ} {seen t : Text}
    (hwait : closeWait = 0 ∧ t.take openWait ⊆ d.opening ∨
      openWait = 0 ∧ t.take closeWait ⊆ d.closing) :
    d.Agree depth openWait closeWait seen t := by
  induction t generalizing depth openWait closeWait seen with
  | nil => rfl
  | cons c t ih =>
    have hpass : d.Agree depth (openWait - 1) (closeWait - 1) (seen ++ [c]) t :=
      ih (hwait.imp (fun h ↦ ⟨by omega, take_pred_subset h.2⟩)
        fun h ↦ ⟨by omega, take_pred_subset h.2⟩)
    rcases openWait with - | openWait
    · rcases closeWait with - | closeWait
      · by_cases hopening : Text.startsWith (c :: t) d.opening = true
        · exact .cons_of_opening hd hopening
            (ih (.inl ⟨rfl, take_pred_subset (Text.take_subset_of_startsWith hopening)⟩))
        · by_cases hclosing : Text.startsWith (c :: t) d.closing = true
          · rcases depth with - | depth
            · exact .cons_of_closing_zero hopening hclosing
            · exact .cons_of_closing_succ hd hopening hclosing
                (ih (.inr ⟨rfl, take_pred_subset (Text.take_subset_of_startsWith hclosing)⟩))
          · refine .cons_of_not (fun h ↦ hclosing h.2) ?_
              (tokensFrom_of_not _ hopening hclosing) hpass
            rw [seek, if_neg fun h ↦ hopening h.2]
      · -- The character belongs to a closing.
        obtain ⟨h, -⟩ | ⟨-, hread⟩ := hwait
        · exact absurd h (Nat.succ_ne_zero _)
        · refine .cons_of_not (fun h ↦ Nat.succ_ne_zero _ h.1) ?_ rfl hpass
          rw [seek, if_neg fun h ↦ hd.not_opening_of_mem (List.cons_subset.1 hread).1 t h.2]
    · -- The character belongs to an opening.
      obtain ⟨rfl, hread⟩ | ⟨h, -⟩ := hwait
      · refine .cons_of_not (fun h ↦ hd.not_closing_of_mem (List.cons_subset.1 hread).1 t h.2) ?_
          rfl hpass
        rw [seek, if_neg fun h ↦ Nat.succ_ne_zero _ h.1]
      · exact absurd h (Nat.succ_ne_zero _)

/-- Behind the first opening, counting begins with that opening. -/
theorem Separate.close?_start (hd : d.Separate) (inside : Text) :
    d.close? 0 0 0 inside =
      (Token.closer? 1 (d.tokensFrom 0 0 inside)).map (Token.tagEnd d inside) := by
  have hagree : d.Agree 0 0 0 [] inside := hd.agree (.inl ⟨rfl, List.nil_subset _⟩)
  simpa [Agree] using hagree

/-! ### Where the spans stand -/

end Delimiters

namespace Piece

variable {d : Delimiters}

/-- Pieces behind others have their spans moved by the size of those. -/
theorem spans_append (d : Delimiters) (start : ℕ) (pieces pieces' : List Piece) :
    spans d start (pieces ++ pieces') =
      spans d start pieces ++ spans d (start + (unite d pieces).size) pieces' := by
  induction pieces generalizing start with
  | nil => simp [spans, unite]
  | cons piece pieces ih => cases piece <;> simp [spans, unite, ih, Nat.add_assoc]

/-- A span is that of a tag among the pieces, and stands where the text of the pieces before that
tag ends. -/
theorem exists_of_mem_spans {start : ℕ} {pieces : List Piece} {span : Span}
    (h : span ∈ spans d start pieces) :
    ∃ before after, pieces = before ++ .tag span.inner :: after ∧
      span.start = start + (unite d before).size ∧
      span.stop = span.start + (d.wrap span.inner).size := by
  induction pieces generalizing start with
  | nil => cases h
  | cons piece pieces ih =>
    -- Behind the first piece, all positions are counted from its end.
    have hlater (h : span ∈ spans d (start + (piece.written d).size) pieces) :
        ∃ before after, piece :: pieces = before ++ .tag span.inner :: after ∧
          span.start = start + (unite d before).size ∧
          span.stop = span.start + (d.wrap span.inner).size := by
      obtain ⟨before, after, rfl, hstart, hstop⟩ := ih h
      exact ⟨piece :: before, after, rfl, by simp [hstart, unite, Nat.add_assoc], hstop⟩
    cases piece with
    | plain text => exact hlater h
    | tag inner =>
      rcases List.mem_cons.1 h with rfl | h
      · exact ⟨[], pieces, rfl, rfl, rfl⟩
      · exact hlater h

/-- The spans stand one behind the other. -/
theorem pairwise_spans (d : Delimiters) (start : ℕ) (pieces : List Piece) :
    (spans d start pieces).Pairwise fun span next ↦ span.stop ≤ next.start := by
  induction pieces generalizing start with
  | nil => exact .nil
  | cons piece pieces ih =>
    cases piece with
    | plain text => exact ih _
    | tag inner =>
      refine .cons (fun next hnext ↦ ?_) (ih _)
      obtain ⟨before, after, -, hstart, -⟩ := exists_of_mem_spans hnext
      rw [hstart]
      exact Nat.le_add_right _ _

end Piece

namespace Delimiters

variable {d : Delimiters}

/-! ### The spans are counted out -/

/-- The first tag that is counted out is the one that the scan finds. -/
theorem Separate.scan_eq_counted (hd : d.Separate) (t : Text) :
    d.scan t = match d.counted? t with
      | none => [.plain t]
      | some (before, inner, rest) => .plain before :: .tag inner :: d.scan rest := by
  rw [hd.scan_eq, Text.cut?_eq, counted?]
  cases Text.firstIndex? d.opening t with
  | none => rfl
  | some start =>
    dsimp only [Option.map_some, Option.bind_eq_bind, Option.bind_some]
    split_ifs with hholds
    · rw [hd.close?_start]
      cases Token.closer? 1 (d.tokensFrom 0 0 (t.drop (start + d.opening.length))) with
      | none => rfl
      | some last => simp [Token.tagEnd]
    · -- The end of a tag is a closing in what stands behind the opening.
      have hnone : d.close? 0 0 0 (t.drop (start + d.opening.length)) = none := by
        by_contra hsome
        obtain ⟨e, he⟩ := Option.ne_none_iff_exists'.1 hsome
        exact hholds ⟨e.inner, e.rest, (eq_of_close? he).symm⟩
      rw [hnone]

theorem Separate.scan_of_none (hd : d.Separate) {t : Text} (h : d.counted? t = none) :
    d.scan t = [.plain t] := by
  rw [hd.scan_eq_counted, h]

theorem Separate.scan_of_some (hd : d.Separate) {t before inner rest : Text}
    (h : d.counted? t = some (before, inner, rest)) :
    d.scan t = .plain before :: .tag inner :: d.scan rest := by
  rw [hd.scan_eq_counted, h]

/-- The spans of the walk are counted out, by induction on the tags that are. -/
theorem Separate.spans_scan (hd : d.Separate) (position : ℕ) (t : Text) :
    Piece.spans d position (d.scan t) = d.countedFrom hd.opening_ne_nil position t := by
  fun_induction countedFrom d hd.opening_ne_nil position t with
  | case1 position t h =>
    rw [hd.scan_of_none h]
    rfl
  | case2 position t before inner rest h start stop ih =>
    rw [hd.scan_of_some h]
    simp only [Piece.spans, Piece.written]
    rw [ih]

/-- An opening stands in a span, or behind all of them with no closing behind it. -/
theorem Separate.opening_in_span (hd : d.Separate) {content a b : Text}
    (h : content = a ++ (d.opening ++ b)) :
    (∃ span ∈ d.spans content, span.start ≤ a.size ∧ a.size < span.stop) ∨
      (∀ span ∈ d.spans content, span.stop ≤ a.size) ∧ ¬d.closing <:+: b := by
  rcases hd.opening_cases h with ⟨before, inner, after, u, v, hscan, ha, huv, hv⟩ |
    ⟨before, last, u, hscan, ha, hb⟩
  · left
    have hsize := congrArg Text.size huv
    rw [Text.size_append] at hsize
    have hpos := Text.size_pos hv
    refine ⟨⟨inner, (Piece.unite d before).size,
      (Piece.unite d before).size + (d.wrap inner).size⟩, ?_, ?_, ?_⟩
    · rw [spans, hscan, Piece.spans_append]
      simp [Piece.spans, Piece.written]
    · rw [ha, Text.size_append]
      exact Nat.le_add_right _ _
    · rw [ha, Text.size_append]
      dsimp only
      omega
  · right
    refine ⟨fun span hspan ↦ ?_, hb⟩
    rw [spans, hscan, Piece.spans_append] at hspan
    have hspan : span ∈ Piece.spans d 0 before := by simpa [Piece.spans] using hspan
    obtain ⟨before', after', hbefore, hstart, hstop⟩ := Piece.exists_of_mem_spans hspan
    have hsize : (Piece.unite d before).size = (Piece.unite d before').size +
        ((d.wrap span.inner).size + (Piece.unite d after').size) := by
      simp [hbefore, Piece.unite, Piece.written]
    rw [hstop, hstart, ha, Text.size_append]
    omega

/-- **The scan counts delimiters.** With delimiters that have no character in common, the spans of a
content are those that are counted out, one behind the other. Each of them gives the bytes in front
of its tag and up to its end. An opening stands inside of one of them, or else behind all of them,
and then no closing follows. -/
theorem spans_eq_counted (hd : d.Separate) (content : Text) :
    d.spans content = d.countedFrom hd.opening_ne_nil 0 content ∧
    (∀ span ∈ d.spans content, ∃ a b, content = a ++ (d.wrap span.inner ++ b) ∧
      span.start = a.size ∧ span.stop = (a ++ d.wrap span.inner).size) ∧
    ((d.spans content).Pairwise fun span next ↦ span.stop ≤ next.start) ∧
    ∀ a b, content = a ++ (d.opening ++ b) →
      (∃ span ∈ d.spans content, span.start ≤ a.size ∧ a.size < span.stop) ∨
        (∀ span ∈ d.spans content, span.stop ≤ a.size) ∧ ¬d.closing <:+: b := by
  refine ⟨hd.spans_scan 0 content, fun span hspan ↦ ?_, Piece.pairwise_spans d 0 _,
    fun a b h ↦ hd.opening_in_span h⟩
  obtain ⟨before, after, hscan, hstart, hstop⟩ := Piece.exists_of_mem_spans hspan
  refine ⟨Piece.unite d before, Piece.unite d after, ?_, by omega, ?_⟩
  · rw [← d.unite_scan content, hscan]
    simp [Piece.unite, Piece.written]
  · rw [Text.size_append, hstop, hstart, Nat.zero_add]

/-- A closing with no opening before it, brackets next to a delimiter, a tag in a tag, and an
opening that is never closed. -/
def crooked : Text := "é]] [[[a [[b]]]] [[x [[y]] z [[".toList

/-- The second tag ends at the last closing, and `é` counts as two bytes. -/
theorem spans_crooked :
    brackets.Separate ∧
    brackets.spans crooked =
      [⟨"[a [[b]]".toList, 5, 17⟩, ⟨"x [[y".toList, 18, 27⟩] := by
  refine ⟨separate_brackets, ?_⟩
  rw [(spans_eq_counted separate_brackets crooked).1]
  have hfirst : brackets.counted? crooked =
      some ("é]] ".toList, "[a [[b]]".toList, " [[x [[y]] z [[".toList) := by decide +kernel
  have hsecond : brackets.counted? " [[x [[y]] z [[".toList =
      some (" ".toList, "x [[y".toList, " z [[".toList) := by decide +kernel
  have hthird : brackets.counted? " z [[".toList = none := by decide +kernel
  rw [countedFrom_of_some _ _ hfirst, countedFrom_of_some _ _ hsecond,
    countedFrom_of_none _ _ hthird]
  decide +kernel

end Delimiters

end TagTemplate
