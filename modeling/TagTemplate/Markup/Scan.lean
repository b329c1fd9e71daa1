import TagTemplate.Markup.Basic

/-!
# Finding tags

`Delimiters.scan` cuts content into pieces. A tag begins at an opening delimiter and ends at the
closing delimiter that balances it: every further opening seen on the way needs one more closing.
If the closings run out before the balance is reached, the tag ends at the last of them, so that
unbalanced markup still yields a tag; an opening with no closing behind it ends the scan.

`Delimiters.close?` walks from an opening to the end of its tag, one character at a time. Openings
are read one behind the other, without overlap, and so are closings; but an opening may overlap a
closing, since nothing keeps the two delimiters from sharing characters. An opening read before the
end of the tag can therefore reach past that end. The search for the next tag then begins behind
it, and falls back to the end of the tag when nothing is found there.
-/

namespace TagTemplate

/-- How a tag ends. -/
structure TagEnd where
  /-- The text up to the closing delimiter. -/
  inner : Text
  /-- The text behind the closing delimiter. -/
  rest : Text
  /-- How many characters of the rest belong to an opening read before the end of the tag. -/
  overhang : Nat

namespace Delimiters

/-- The count of openings still to be closed and the characters until the next opening can be read,
after looking for an opening at the start of the text. -/
def seek (d : Delimiters) (depth wait : Nat) (t : Text) : Nat × Nat :=
  if wait = 0 ∧ t.startsWith d.opening then (depth + 1, d.opening.length) else (depth, wait)

/-- The end of a tag, looked for from the start of the text. `depth` openings are still to be closed
first; the next `openWait` characters belong to an opening already read and the next `closeWait`
ones to a closing already read. -/
def close? (d : Delimiters) : (depth openWait closeWait : Nat) → Text → Option TagEnd
  | _, _, _, [] => none
  | depth, openWait, closeWait, c :: t =>
    if closeWait = 0 ∧ Text.startsWith (c :: t) d.closing then
      let here : TagEnd := ⟨[], (c :: t).drop d.closing.length, openWait - d.closing.length⟩
      match depth with
      | 0 => some here
      | depth + 1 =>
        let (depth, openWait) := d.seek depth openWait (c :: t)
        match close? d depth (openWait - 1) (d.closing.length - 1) t with
        | some later => some { later with inner := c :: later.inner }
        | none => some here
    else
      let (depth, openWait) := d.seek depth openWait (c :: t)
      (close? d depth (openWait - 1) (closeWait - 1) t).map fun later ↦
        { later with inner := c :: later.inner }

/-- The text before the next opening and the text behind it. The first `overhang` characters are
searched only when there is no opening behind them. -/
def open? (d : Delimiters) (overhang : Nat) (t : Text) : Option (Text × Text) :=
  match Text.cut? d.opening (t.drop overhang) with
  | some (before, rest) => some (t.take overhang ++ before, rest)
  | none => Text.cut? d.opening t

/-! ### Nothing is lost -/

theorem eq_of_close? {d : Delimiters} {depth openWait closeWait : Nat} {t : Text} {e : TagEnd}
    (h : d.close? depth openWait closeWait t = some e) : t = e.inner ++ d.closing ++ e.rest := by
  induction t generalizing depth openWait closeWait e with
  | nil => simp [close?] at h
  | cons c t ih =>
    rw [close?] at h
    split at h
    · rename_i hs
      have whole : c :: t = d.closing ++ (c :: t).drop d.closing.length :=
        (Text.drop_of_startsWith hs.2).symm
      cases depth with
      | zero =>
        simp only [Option.some.injEq] at h
        subst h
        simpa using whole
      | succ depth =>
        simp only at h
        split at h
        · rename_i later hlater
          simp only [Option.some.injEq] at h
          subst h
          simp [ih hlater]
        · simp only [Option.some.injEq] at h
          subst h
          simpa using whole
    · obtain ⟨later, hlater, rfl⟩ := Option.map_eq_some_iff.1 h
      simp [ih hlater]

theorem eq_of_open? {d : Delimiters} {overhang : Nat} {t before rest : Text}
    (h : d.open? overhang t = some (before, rest)) : t = before ++ d.opening ++ rest := by
  rw [open?] at h
  split at h
  · rename_i hcut
    simp only [Option.some.injEq, Prod.mk.injEq] at h
    obtain ⟨rfl, rfl⟩ := h
    have := Text.eq_append_of_cut? hcut
    conv => lhs; rw [← List.take_append_drop overhang t, this]
    simp
  · exact Text.eq_append_of_cut? h

/-! ### The cut -/

/-- The pieces of the text, whose first `overhang` characters belong to an opening already read. -/
def scanFrom (d : Delimiters) (hd : d.usable = true) (overhang : Nat) (t : Text) : List Piece :=
  match _hopen : d.open? overhang t with
  | none => [.plain t]
  | some (before, inside) =>
    match _hclose : d.close? 0 0 0 inside with
    | none => [.plain t]
    | some e => .plain before :: .tag e.inner :: scanFrom d hd e.overhang e.rest
termination_by t.length
decreasing_by
  have h1 := congrArg List.length (eq_of_open? _hopen)
  have h2 := congrArg List.length (eq_of_close? _hclose)
  simp only [usable, Bool.and_eq_true, Bool.not_eq_true', List.isEmpty_eq_false_iff] at hd
  have h3 := List.length_pos_iff.2 hd.1
  simp only [List.length_append] at h1 h2
  omega

/-- The pieces of the content: texts and outermost tags in turn, a text first and last. -/
def scan (d : Delimiters) (content : Text) : List Piece :=
  if hd : d.usable = true then d.scanFrom hd 0 content else [.plain content]

/-- The inner texts of the outermost tags. -/
def tags (d : Delimiters) (content : Text) : List Text := (d.scan content).filterMap Piece.inner?

/-- Where the outermost tags stand. -/
def spans (d : Delimiters) (content : Text) : List Span := Piece.spans d 0 (d.scan content)

theorem unite_scanFrom (d : Delimiters) (hd : d.usable = true) (overhang : Nat) (t : Text) :
    Piece.unite d (d.scanFrom hd overhang t) = t := by
  fun_induction scanFrom d hd overhang t with
  | case1 => simp [Piece.unite, Piece.written]
  | case2 => simp [Piece.unite, Piece.written]
  | case3 overhang t before inside hopen e hclose ih =>
    rw [eq_of_open? hopen, eq_of_close? hclose]
    simp only [Piece.unite, List.flatMap_cons, Piece.written, wrap] at ih ⊢
    rw [ih]
    simp

/-- The pieces of a content unite to it. -/
theorem unite_scan (d : Delimiters) (content : Text) : Piece.unite d (d.scan content) = content := by
  rw [scan]
  split
  · exact unite_scanFrom ..
  · simp [Piece.unite, Piece.written]

theorem length_unite_of_mem {d : Delimiters} {pieces : List Piece} {inner : Text}
    (h : Piece.tag inner ∈ pieces) :
    d.opening.length + inner.length + d.closing.length ≤ (Piece.unite d pieces).length := by
  induction pieces with
  | nil => cases h
  | cons piece pieces ih =>
    rw [Piece.unite, List.flatMap_cons, List.length_append]
    rcases List.mem_cons.1 h with rfl | h
    · simp [Piece.written, wrap]
      omega
    · have := ih h
      rw [Piece.unite] at this
      omega

/-- The inner text of a tag is shorter than the content that holds the tag. -/
theorem length_lt_of_mem_tags {d : Delimiters} {content inner : Text}
    (h : inner ∈ d.tags content) : inner.length < content.length := by
  obtain ⟨piece, hmem, hinner⟩ := List.mem_filterMap.1 h
  cases piece with
  | plain t => cases hinner
  | tag inner' =>
    simp only [Piece.inner?, Option.some.injEq] at hinner
    subst hinner
    have hlen := length_unite_of_mem (d := d) hmem
    rw [unite_scan] at hlen
    rw [scan] at hmem
    split at hmem
    · rename_i hd
      simp only [usable, Bool.and_eq_true, Bool.not_eq_true', List.isEmpty_eq_false_iff] at hd
      have := List.length_pos_iff.2 hd.1
      omega
    · simp at hmem

end Delimiters

end TagTemplate
