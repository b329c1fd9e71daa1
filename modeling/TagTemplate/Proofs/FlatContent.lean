import TagTemplate.Proofs.Merge

/-!
# Contents without nested tags

A text is *plain* when no character of a delimiter occurs in it. In a content whose texts between
tags and whose inner texts are all plain, nothing can be mistaken for anything else: the tags that
the scan finds are the tags that the content was put together from (`Separate.tags_unite`), and a
replacement reaches each of them where it stands and nothing else (`Separate.replaceAll_unite`).

For such contents this is more than `Separate.replaceAll_scan` says for all contents, because not
every tag needs to have an output. A tag without one is left as it is: it neither holds nor touches
the text of another.
-/

namespace TagTemplate

/-! ### The first occurrence of a mark behind other characters -/

namespace Text

variable {mark t : Text}

/-- A mark does not begin where a character stands that it does not have. -/
theorem not_prefix_cons_of_notMem {c : Char} (hne : mark ≠ []) (hc : c ∉ mark) (t : Text) :
    ¬mark <+: c :: t := by
  obtain ⟨m, mark, rfl⟩ := List.exists_cons_of_ne_nil hne
  rw [List.cons_prefix_cons]
  rintro ⟨rfl, -⟩
  exact hc List.mem_cons_self

/-- Nor does it begin so shortly before such a character that it would reach that far. -/
theorem not_prefix_append_of_notMem {w : Text} {c : Char} (hlt : t.length < mark.length)
    (hc : c ∉ mark) : ¬mark <+: t ++ c :: w := by
  rintro ⟨rest, hrest⟩
  have hat : (mark ++ rest)[t.length]? = some c := by rw [hrest]; simp
  rw [List.getElem?_append_left hlt] at hat
  exact hc (List.mem_of_getElem? hat)

/-- A text is cut at a mark behind characters that do not belong to it. -/
theorem cut?_append_of_notMem (hne : mark ≠ []) (h : ∀ c ∈ t, c ∉ mark) (r : Text) :
    cut? mark (t ++ (mark ++ r)) = some (t, r) := by
  induction t with
  | nil =>
    obtain ⟨m, mark, rfl⟩ := List.exists_cons_of_ne_nil hne
    have hstart : startsWith (m :: (mark ++ r)) (m :: mark) = true := startsWith_iff.2 ⟨r, rfl⟩
    show cut? (m :: mark) (m :: (mark ++ r)) = _
    rw [cut?, if_pos hstart]
    simp
  | cons c t ih =>
    rw [List.forall_mem_cons] at h
    have hstart : ¬startsWith (c :: (t ++ (mark ++ r))) mark = true := fun hstart ↦
      not_prefix_cons_of_notMem hne h.1 _ (List.isPrefixOf_iff_prefix.1 hstart)
    rw [List.cons_append, cut?, if_neg hstart, ih h.2]
    rfl

/-- A text that has no character of the mark is not cut. -/
theorem cut?_of_notMem (hne : mark ≠ []) (h : ∀ c ∈ t, c ∉ mark) : cut? mark t = none := by
  induction t with
  | nil => rw [cut?, if_neg (by simpa using hne)]
  | cons c t ih =>
    rw [List.forall_mem_cons] at h
    have hstart : ¬startsWith (c :: t) mark = true := fun hstart ↦
      not_prefix_cons_of_notMem hne h.1 _ (List.isPrefixOf_iff_prefix.1 hstart)
    rw [cut?, if_neg hstart, ih h.2]
    rfl

end Text

/-! ### Plain texts -/

/-- No character of a delimiter occurs in the text. -/
def Delimiters.Plain (d : Delimiters) (t : Text) : Prop := ∀ c ∈ t, c ∉ d.opening ∧ c ∉ d.closing

/-- A text between tags that is plain, or a tag whose inner text is. -/
def Piece.Flat (d : Delimiters) : Piece → Prop
  | .plain t => d.Plain t
  | .tag inner => d.Plain inner

namespace Delimiters

variable {d : Delimiters}

/-- Whether a text is plain can be computed. -/
instance (d : Delimiters) (t : Text) : Decidable (d.Plain t) :=
  List.decidableBAll (fun c ↦ c ∉ d.opening ∧ c ∉ d.closing) t

/-- Whether a piece is flat can be computed. -/
instance (d : Delimiters) : (piece : Piece) → Decidable (piece.Flat d)
  | .plain t => inferInstanceAs (Decidable (d.Plain t))
  | .tag inner => inferInstanceAs (Decidable (d.Plain inner))

namespace Plain

variable {s t : Text}

theorem nil : d.Plain [] := List.forall_mem_nil _

theorem mono (h : d.Plain t) (hsub : s ⊆ t) : d.Plain s := fun c hc ↦ h c (hsub hc)

theorem append_iff : d.Plain (s ++ t) ↔ d.Plain s ∧ d.Plain t := List.forall_mem_append

theorem cons_iff {c : Char} : d.Plain (c :: t) ↔ (c ∉ d.opening ∧ c ∉ d.closing) ∧ d.Plain t :=
  List.forall_mem_cons

end Plain

/-- With brackets, a text is plain that has neither of them. -/
theorem plain_brackets_iff {t : Text} : brackets.Plain t ↔ '[' ∉ t ∧ ']' ∉ t := by
  constructor
  · intro h
    exact ⟨fun hmem ↦ (h _ hmem).1 (by decide), fun hmem ↦ (h _ hmem).2 (by decide)⟩
  · rintro ⟨hopening, hclosing⟩ c hc
    refine ⟨fun hmem ↦ hopening ?_, fun hmem ↦ hclosing ?_⟩
    · obtain rfl : c = '[' := by simpa [brackets] using hmem
      exact hc
    · obtain rfl : c = ']' := by simpa [brackets] using hmem
      exact hc

/-- Each rule replaces a tag whose inner text is plain by the answer to it. -/
def Answers (d : Delimiters) (answer : Text → Option Text) (rules : List Text.Rule) : Prop :=
  ∀ rule ∈ rules, ∃ inner output, d.Plain inner ∧ answer inner = some output ∧
    rule = (d.wrap inner, output)

namespace Separate

variable (hd : d.Separate)
include hd

/-- A tag whose inner text is plain ends at the first closing. -/
theorem close?_plain {inner : Text} (h : d.Plain inner) (r : Text) :
    d.close? 0 0 0 (inner ++ (d.closing ++ r)) = some ⟨inner, r, 0⟩ := by
  induction inner with
  | nil =>
    obtain ⟨c, closing, hclosing⟩ := List.exists_cons_of_ne_nil hd.closing_ne_nil
    have hstart : Text.startsWith (c :: (closing ++ r)) d.closing = true :=
      Text.startsWith_iff.2 ⟨r, by rw [hclosing]; rfl⟩
    rw [List.nil_append, hclosing, List.cons_append, close?_zero_of_closing hstart,
      hclosing, Nat.zero_sub, ← List.cons_append, List.drop_left]
  | cons c inner ih =>
    rw [Plain.cons_iff] at h
    obtain ⟨⟨hopening, hclosing⟩, hinner⟩ := h
    let behind := inner ++ (d.closing ++ r)
    have hclose : ¬Text.startsWith (c :: behind) d.closing = true := fun hstart ↦
      Text.not_prefix_cons_of_notMem hd.closing_ne_nil hclosing _
        (List.isPrefixOf_iff_prefix.1 hstart)
    have hopen : ¬Text.startsWith (c :: behind) d.opening = true := fun hstart ↦
      Text.not_prefix_cons_of_notMem hd.opening_ne_nil hopening _
        (List.isPrefixOf_iff_prefix.1 hstart)
    have hseek : d.seek 0 0 (c :: behind) = (0, 0) := by rw [seek, if_neg fun h ↦ hopen h.2]
    show d.close? 0 0 0 (c :: behind) = _
    rw [close?_cons_of_not fun h ↦ hclose h.2, hseek]
    show (d.close? 0 0 0 behind).map _ = _
    rw [ih hinner]
    rfl

/-! ### The tags of a flat content -/

/-- A plain text has no tags. -/
theorem scan_plain {t : Text} (h : d.Plain t) : d.scan t = [.plain t] := by
  rw [hd.scan_eq, Text.cut?_of_notMem hd.opening_ne_nil fun c hc ↦ (h c hc).1]

/-- Behind a plain text, the first tag is the one that stands there. -/
theorem scan_append_wrap {t inner : Text} (ht : d.Plain t) (hinner : d.Plain inner) (r : Text) :
    d.scan (t ++ (d.wrap inner ++ r)) = .plain t :: .tag inner :: d.scan r := by
  have hshape : t ++ (d.wrap inner ++ r) = t ++ (d.opening ++ (inner ++ (d.closing ++ r))) := by
    simp [wrap]
  rw [hd.scan_eq, hshape,
    Text.cut?_append_of_notMem hd.opening_ne_nil (fun c hc ↦ (ht c hc).1)]
  dsimp only
  rw [hd.close?_plain hinner]

/-- A plain text has no tags. -/
theorem tags_plain {t : Text} (h : d.Plain t) : d.tags t = [] := by
  rw [tags, hd.scan_plain h]
  rfl

/-- A content that is one tag. -/
theorem scan_wrap {inner : Text} (h : d.Plain inner) :
    d.scan (d.wrap inner) = [.plain [], .tag inner, .plain []] := by
  have hscan := hd.scan_append_wrap Plain.nil h []
  rw [List.nil_append, List.append_nil, hd.scan_plain Plain.nil] at hscan
  exact hscan

/-- **The tags that are found are the tags that were put there.** -/
theorem tags_unite {pieces : List Piece} (h : ∀ piece ∈ pieces, piece.Flat d) :
    d.tags (Piece.unite d pieces) = pieces.filterMap Piece.inner? := by
  -- Texts may follow one another, so the text before the next tag is collected on the way.
  have hbehind : ∀ t, d.Plain t →
      d.tags (t ++ Piece.unite d pieces) = pieces.filterMap Piece.inner? := by
    induction pieces with
    | nil =>
      intro t ht
      show d.tags (t ++ []) = []
      rw [List.append_nil, hd.tags_plain ht]
    | cons piece pieces ih =>
      rw [List.forall_mem_cons] at h
      intro t ht
      cases piece with
      | plain t' =>
        have hboth := ih h.2 (t ++ t') (Plain.append_iff.2 ⟨ht, h.1⟩)
        rw [List.append_assoc] at hboth
        exact hboth
      | tag inner =>
        have hscan := hd.scan_append_wrap ht h.1 (Piece.unite d pieces)
        have hrest := ih h.2 [] .nil
        rw [List.nil_append] at hrest
        show (d.scan (t ++ (d.wrap inner ++ Piece.unite d pieces))).filterMap Piece.inner? = _
        rw [hscan, Piece.filterMap_inner?_plain, Piece.filterMap_inner?_tag,
          Piece.filterMap_inner?_tag]
        exact congrArg (inner :: ·) hrest
  exact hbehind [] .nil

/-! ### Replacing some of the tags -/

/-- At a tag whose inner text is plain, no other such tag begins. -/
theorem eq_of_wrap_prefix {inner inner' r : Text} (h : d.Plain inner) (h' : d.Plain inner')
    (hbegins : d.wrap inner' <+: d.wrap inner ++ r) : inner' = inner := by
  obtain ⟨r', hr'⟩ := hbegins
  have hinside : inner' ++ (d.closing ++ r') = inner ++ (d.closing ++ r) := by
    simpa [wrap] using hr'
  have hcut := hd.close?_plain h' r'
  rw [hinside, hd.close?_plain h r] at hcut
  exact congrArg TagEnd.inner (Option.some.inj hcut).symm

/-- Behind the start of a tag whose inner text is plain, and up to its end, no tag begins. -/
theorem not_opening_prefix {inner b r : Text} (h : d.Plain inner) (hb : b <:+ d.wrap inner)
    (hne : b ≠ []) (hproper : b ≠ d.wrap inner) : ¬d.opening <+: b ++ r := by
  obtain ⟨a, hwrap⟩ := hb
  have ha : a ≠ [] := fun hnil ↦ hproper (by rw [← hwrap, hnil, List.nil_append])
  have hdrop : b = d.opening.drop a.length ++
      (inner ++ d.closing).drop (a.length - d.opening.length) := by
    rw [← List.drop_append, ← List.append_assoc, show d.opening ++ inner ++ d.closing = a ++ b from
      hwrap.symm, List.drop_left]
  have hshort : (d.opening.drop a.length).length < d.opening.length := by
    have hapos := List.length_pos_iff.2 ha
    have hopos := List.length_pos_iff.2 hd.opening_ne_nil
    rw [List.length_drop]
    omega
  -- What is left of the opening is followed by a character of the inner text or of the closing.
  have hrest : (inner ++ d.closing).drop (a.length - d.opening.length) ≠ [] := by
    intro hnil
    rw [hnil, List.append_nil] at hdrop
    have hlong : a.length < d.opening.length := Nat.lt_of_not_le fun hle ↦ by
      rw [List.drop_eq_nil_of_le hle] at hdrop
      exact hne hdrop
    rw [Nat.sub_eq_zero_of_le (Nat.le_of_lt hlong), List.drop_zero] at hnil
    exact hd.closing_ne_nil (List.append_eq_nil_iff.1 hnil).2
  obtain ⟨c, w, hcw⟩ := List.exists_cons_of_ne_nil hrest
  have hc : c ∉ d.opening := by
    have hmem : c ∈ inner ++ d.closing := List.mem_of_mem_drop (hcw ▸ List.mem_cons_self)
    rcases List.mem_append.1 hmem with hinner | hclosing
    · exact (h c hinner).1
    · exact fun hopening ↦ hd.disjoint hopening hclosing
  rw [hdrop, hcw, List.append_assoc, List.cons_append]
  exact Text.not_prefix_append_of_notMem hshort hc

section Answers

variable {answer : Text → Option Text} {rules : List Text.Rule} (hrules : d.Answers answer rules)
include hrules

omit hd in
/-- Where no opening stands, no output is put in. -/
theorem ruleAt?_of_not_opening {t : Text} (h : ¬d.opening <+: t) : Text.ruleAt? rules t = none := by
  refine Text.ruleAt?_eq_none_iff.2 fun rule hmem hmatch ↦ h ?_
  obtain ⟨inner, output, -, -, rfl⟩ := hrules rule hmem
  have hopening : d.opening <+: d.wrap inner := by
    rw [wrap, List.append_assoc]
    exact List.prefix_append _ _
  exact hopening.trans hmatch.2

/-- At a tag with an answer, the rule for it matches and no other does. -/
theorem ruleAt?_wrap {inner output : Text} (h : d.Plain inner) (hanswer : answer inner = some output)
    (hmem : (d.wrap inner, output) ∈ rules) (r : Text) :
    Text.ruleAt? rules (d.wrap inner ++ r) = some (d.wrap inner, output) := by
  have hmatch : Text.Matches (d.wrap inner, output) (d.wrap inner ++ r) :=
    ⟨by simp [wrap, hd.opening_ne_nil], List.prefix_append _ _⟩
  obtain ⟨rule, hpicked⟩ : ∃ rule, Text.ruleAt? rules (d.wrap inner ++ r) = some rule := by
    refine Option.ne_none_iff_exists'.1 fun hnone ↦ ?_
    exact Text.ruleAt?_eq_none_iff.1 hnone _ hmem hmatch
  obtain ⟨hrule, hbegins, -⟩ := Text.ruleAt?_spec hpicked
  obtain ⟨inner', output', hinner', hanswer', rfl⟩ := hrules rule hrule
  obtain rfl := hd.eq_of_wrap_prefix h hinner' hbegins.2
  rw [hanswer, Option.some.injEq] at hanswer'
  rw [hpicked, hanswer']

/-- In a tag without an answer, no rule matches. -/
theorem ruleAt?_in_wrap {inner b : Text} (h : d.Plain inner) (hanswer : answer inner = none)
    (hb : b <:+ d.wrap inner) (hne : b ≠ []) (r : Text) : Text.ruleAt? rules (b ++ r) = none := by
  rcases eq_or_ne b (d.wrap inner) with rfl | hproper
  · refine Text.ruleAt?_eq_none_iff.2 fun rule hmem hmatch ↦ ?_
    obtain ⟨inner', output', hinner', hanswer', rfl⟩ := hrules rule hmem
    obtain rfl := hd.eq_of_wrap_prefix h hinner' hmatch.2
    exact nomatch hanswer.symm.trans hanswer'
  · exact ruleAt?_of_not_opening hrules (hd.not_opening_prefix h hb hne hproper)

/-- **A replacement reaches the tags that have an answer, and nothing else.** -/
theorem replaceAll_unite {pieces : List Piece} (h : ∀ piece ∈ pieces, piece.Flat d)
    (hall : ∀ inner ∈ pieces.filterMap Piece.inner?, ∀ output, answer inner = some output →
      (d.wrap inner, output) ∈ rules) :
    (Piece.unite d pieces).replaceAll rules =
      pieces.flatMap (Piece.filled fun inner ↦ (answer inner).getD (d.wrap inner)) := by
  induction pieces with
  | nil => rfl
  | cons piece pieces ih =>
    rw [List.forall_mem_cons] at h
    cases piece with
    | plain t =>
      show Text.replaceAll rules (t ++ Piece.unite d pieces) = _
      rw [Text.replaceAll_append_of_none fun b hb hne ↦ ?_, ih h.2 hall, List.flatMap_cons,
        Piece.filled_plain]
      obtain ⟨c, b', rfl⟩ := List.exists_cons_of_ne_nil hne
      exact ruleAt?_of_not_opening hrules (Text.not_prefix_cons_of_notMem hd.opening_ne_nil
        (h.1 c (hb.mem List.mem_cons_self)).1 _)
    | tag inner =>
      have hrest := ih h.2 fun other hother ↦ hall other (List.mem_cons_of_mem inner hother)
      show Text.replaceAll rules (d.wrap inner ++ Piece.unite d pieces) = _
      rw [List.flatMap_cons, Piece.filled_tag, ← hrest]
      cases hanswer : answer inner with
      | some output =>
        have hmem := hall inner List.mem_cons_self output hanswer
        rw [Text.replaceAll_of_ruleAt? (hd.ruleAt?_wrap hrules h.1 hanswer hmem _), List.drop_left]
        rfl
      | none =>
        exact Text.replaceAll_append_of_none fun b hb hne ↦
          hd.ruleAt?_in_wrap hrules h.1 hanswer hb hne _

end Answers

end Separate

end Delimiters

end TagTemplate
