import TagTemplate.Proofs.Substitution
import TagTemplate.Proofs.TokenScan

/-!
# Tags that wait

An uncacheable tag is left alone by a pass that does not allow uncacheable tags: it is no rule of
the replacement at the end of the pass. But the replacement knows texts and not places. A tag that
is resolved is replaced wherever its text occurs, and that can be inside of a tag that was left
alone. So an uncacheable tag does not always stay as it is.

What stays is told by where the texts of the other tags occur: a piece of the content is copied as
it is when none of these occurrences shares a character with it (`Piece.keeps_replaceFrom`). When
the delimiters have no character in common, the occurrences lie inside of outermost tags
(`Delimiters.Separate.occurrence_in_tag`). Then the text between tags always stays, and an
uncacheable tag stays when it does not hold the text of a tag that may be resolved.
-/

namespace TagTemplate

open Run

/-! ### Replacing in a part of a text -/

namespace Text

variable {rules : List Rule}

/-- The search text occurs in the content so that it has a character between the two positions. -/
def Overlaps (search content : Text) (start stop : ℕ) : Prop :=
  ∃ a b, content = a ++ (search ++ b) ∧ a.length < stop ∧ start < a.length + search.length

/-- What is to be skipped at a position of the content, if anything, was read by a match that began
before it. -/
def Reaches (rules : List Rule) (content : Text) (position skip : ℕ) : Prop :=
  skip = 0 ∨ ∃ rule ∈ rules, ∃ a b, content = a ++ (rule.1 ++ b) ∧ a.length < position ∧
    a.length + rule.1.length = position + skip

/-- No match reaches into a part of the content that no search text overlaps. -/
theorem Reaches.eq_zero {content : Text} {position skip length : ℕ}
    (h : Reaches rules content position skip) (hlength : 0 < length)
    (hfree : ∀ rule ∈ rules, ¬Overlaps rule.1 content position (position + length)) : skip = 0 := by
  obtain h | ⟨rule, hmem, a, b, hcontent, ha, hreach⟩ := h
  · exact h
  · refine Nat.eq_zero_of_not_pos fun hskip ↦ ?_
    exact hfree rule hmem ⟨a, b, hcontent, by omega, by omega⟩

/-- Replacing goes through a part of the content and puts out something for it. What it skips behind
that part was read by a match again. -/
theorem Reaches.exists_replaceFrom {content before w y : Text} {skip : ℕ}
    (hcontent : content = before ++ (w ++ y)) (h : Reaches rules content before.length skip) :
    ∃ out skip', replaceFrom rules skip (w ++ y) = out ++ replaceFrom rules skip' y ∧
      Reaches rules content (before ++ w).length skip' := by
  induction w generalizing before skip with
  | nil => exact ⟨[], skip, rfl, by rwa [List.append_nil]⟩
  | cons c w ih =>
    have hnext : content = before ++ [c] ++ (w ++ y) := by simpa using hcontent
    have hlen : (before ++ [c]).length = before.length + 1 := List.length_append
    rw [List.append_cons]
    rcases skip with - | skip
    · -- Nothing is skipped here: a character is put out, or a match begins.
      rcases hrule : ruleAt? rules (c :: (w ++ y)) with - | rule
      · obtain ⟨out, skip', hout, hreaches⟩ := ih hnext (.inl rfl)
        refine ⟨c :: out, skip', ?_, hreaches⟩
        change replaceAll rules (c :: (w ++ y)) = _
        rw [replaceAll_cons_of_none hrule, replaceAll, hout]
        rfl
      · obtain ⟨hmem, ⟨hne, r, hr⟩, -⟩ := ruleAt?_spec hrule
        have hpos := List.length_pos_iff.2 hne
        have hreads : Reaches rules content (before ++ [c]).length (rule.1.length - 1) :=
          .inr ⟨rule, hmem, before, r, by rw [hr]; exact hcontent, by omega, by omega⟩
        obtain ⟨out, skip', hout, hreaches⟩ := ih hnext hreads
        refine ⟨rule.2 ++ out, skip', ?_, hreaches⟩
        rw [List.cons_append, replaceFrom, hrule]
        dsimp only
        rw [hout, List.append_assoc]
    · -- The character was read by a match before it.
      have hreads : Reaches rules content (before ++ [c]).length skip := by
        obtain h | ⟨rule, hmem, a, b, hocc, ha, hreach⟩ := h
        · exact absurd h (Nat.succ_ne_zero _)
        · exact .inr ⟨rule, hmem, a, b, hocc, by omega, by omega⟩
      exact ih hnext hreads

/-- No match begins in a part of the content that no search text overlaps. -/
theorem ruleAt?_of_not_overlaps {content before w y b : Text}
    (hcontent : content = before ++ (w ++ y))
    (h : ∀ rule ∈ rules, ¬Overlaps rule.1 content before.length (before.length + w.length))
    (hb : b <:+ w) (hne : b ≠ []) : ruleAt? rules (b ++ y) = none := by
  refine ruleAt?_eq_none_iff.2 fun rule hmem hmatch ↦ ?_
  obtain ⟨a, rfl⟩ := hb
  obtain ⟨r, hr⟩ := hmatch.2
  have hpos := List.length_pos_iff.2 hne
  have hrulepos := List.length_pos_iff.2 hmatch.1
  refine h rule hmem ⟨before ++ a, r, ?_, ?_, ?_⟩
  · rw [hcontent, hr]
    simp
  · simp only [List.length_append]
    omega
  · simp only [List.length_append]
    omega

end Text

/-! ### Pieces that are kept -/

namespace Piece

variable {d : Delimiters} {kept : ℕ → Piece → Prop} {rules : List Text.Rule}

/-- The text can be cut into one part for each piece, in their order, so that the part of each piece
that is to be kept is the piece as it is written. What is to be kept is told by the piece and by how
many characters stand before it, of which there are `start` before the first one. -/
def Keeps (d : Delimiters) (kept : ℕ → Piece → Prop) : (start : ℕ) → List Piece → Text → Prop
  | _, [], out => out = []
  | start, piece :: pieces, out =>
    ∃ part rest, out = part ++ rest ∧ (kept start piece → part = piece.written d) ∧
      Keeps d kept (start + (piece.written d).length) pieces rest

/-- **What no match touches is kept.** -/
theorem keeps_replaceFrom {content before : Text} {skip : ℕ} {pieces : List Piece}
    (hcontent : content = before ++ unite d pieces)
    (hfree : ∀ start piece, kept start piece → ∀ rule ∈ rules,
      ¬Text.Overlaps rule.1 content start (start + (piece.written d).length))
    (h : Text.Reaches rules content before.length skip) :
    Keeps d kept before.length pieces (Text.replaceFrom rules skip (unite d pieces)) := by
  induction pieces generalizing before skip with
  | nil => rfl
  | cons piece pieces ih =>
    have hbehind : content = before ++ piece.written d ++ unite d pieces := by
      rw [hcontent, List.append_assoc]
      rfl
    have hlen : (before ++ piece.written d).length = before.length + (piece.written d).length :=
      List.length_append
    rcases eq_or_ne (piece.written d) [] with hnil | hne
    · rw [hnil, List.append_nil] at hbehind
      refine ⟨[], Text.replaceFrom rules skip (unite d pieces), ?_, fun _ ↦ hnil.symm, ?_⟩
      · show Text.replaceFrom rules skip (piece.written d ++ unite d pieces) = _
        rw [hnil]
        rfl
      · rw [hnil]
        exact ih hbehind h
    · by_cases hpiece : kept before.length piece
      · -- No match reaches into the piece from before, and none begins in it.
        have hpiecefree := hfree _ _ hpiece
        obtain rfl : skip = 0 := h.eq_zero (List.length_pos_iff.2 hne) hpiecefree
        have hcopy : Text.replaceAll rules (piece.written d ++ unite d pieces) =
            piece.written d ++ Text.replaceAll rules (unite d pieces) :=
          Text.replaceAll_append_of_none fun b hb hbne ↦
            Text.ruleAt?_of_not_overlaps hcontent hpiecefree hb hbne
        refine ⟨piece.written d, _, hcopy, fun _ ↦ rfl, ?_⟩
        rw [← hlen]
        exact ih hbehind (.inl rfl)
      · obtain ⟨out, skip', hout, hreaches⟩ := h.exists_replaceFrom hcontent
        refine ⟨out, _, hout, fun hkept ↦ absurd hkept hpiece, ?_⟩
        rw [← hlen]
        exact ih hbehind hreaches

/-- What keeps more keeps less. -/
theorem Keeps.imp {kept' : ℕ → Piece → Prop} {start : ℕ} {pieces : List Piece} {out : Text}
    (h : Keeps d kept start pieces out)
    (himp : ∀ before piece after, pieces = before ++ piece :: after →
      kept' (start + (unite d before).length) piece →
        kept (start + (unite d before).length) piece) :
    Keeps d kept' start pieces out := by
  induction pieces generalizing start out with
  | nil => exact h
  | cons piece pieces ih =>
    obtain ⟨part, rest, rfl, hpart, hrest⟩ := h
    refine ⟨part, rest, rfl, fun hpiece ↦ hpart (himp [] piece pieces rfl hpiece), ih hrest ?_⟩
    intro before next after hpieces hnext
    have hlater := himp (piece :: before) next after (by rw [hpieces]; rfl)
    rw [show unite d (piece :: before) = piece.written d ++ unite d before from rfl,
      List.length_append, ← Nat.add_assoc] at hlater
    exact hlater hnext

end Piece

/-! ### What a pass may replace -/

/-- Whether a tag is marked uncacheable, by its inner text. -/
def Waiting (inner : Text) : Prop := inner.head? = some TagSource.uncacheableMark

/-- The text between tags, and the tags that are marked uncacheable. -/
def Piece.Stays : Piece → Prop
  | plain _ => True
  | tag inner => Waiting inner

namespace Delimiters

variable {d : Delimiters}

/-- No text of an outermost tag that is not marked shares a character with what stands between the
two positions of the content. -/
def Untouched (d : Delimiters) (content : Text) (start stop : ℕ) : Prop :=
  ∀ other ∈ d.tags content, ¬Waiting other → ¬Text.Overlaps (d.wrap other) content start stop

/-- No text of an outermost tag that is not marked occurs in the piece, if that is a tag. -/
def Clear (d : Delimiters) (content : Text) : Piece → Prop
  | .plain _ => True
  | .tag inner => ∀ other ∈ d.tags content, ¬Waiting other → ¬d.wrap other <:+: d.wrap inner

/-- A tag text that begins inside of a tag, or where it does, ends no further on. -/
theorem Separate.length_le_of_occurrence (hd : d.Separate) {e : TagEnd} {other u r b : Text}
    (hclose : d.close? 0 0 0 (e.inner ++ (d.closing ++ r)) = some e) (hother : d.Reads other)
    (hsame : d.opening ++ (e.inner ++ (d.closing ++ r)) =
      u ++ (d.opening ++ (other ++ (d.closing ++ b))))
    (hu : u.length < (d.wrap e.inner).length) : u.length + other.length ≤ e.inner.length := by
  obtain ⟨_, e', hclose', rfl⟩ := hother
  obtain ⟨found, hfound, hle⟩ := hd.close?_append hclose' b
  rcases u with - | ⟨c, u⟩
  · rw [List.nil_append] at hsame
    rw [List.append_cancel_left hsame, hfound] at hclose
    cases hclose
    simpa using hle
  · -- The occurrence begins behind the first character of the opening of the tag.
    obtain ⟨o, opening, ho⟩ := List.exists_cons_of_ne_nil hd.opening_ne_nil
    have hrest : opening ⊆ d.opening := ho ▸ List.subset_cons_self o opening
    have hbehind : opening ++ (e.inner ++ (d.closing ++ r)) =
        u ++ (d.opening ++ (e'.inner ++ (d.closing ++ b))) := by
      rw [ho] at hsame ⊢
      exact (List.cons.inj hsame).2
    have hreading : d.close? 0 opening.length 0 (opening ++ (e.inner ++ (d.closing ++ r))) = _ :=
      hd.close?_append_opening hrest _
    rw [hclose, hbehind] at hreading
    have hwithin : u.length < (opening ++ e.inner).length + d.closing.length := by
      simp only [wrap, ho, List.length_append, List.length_cons] at hu ⊢
      omega
    obtain ⟨found', hfound', hbound⟩ :=
      hd.close?_inside (by rw [ho]; simp) (by simp) hreading hwithin
    rw [hfound] at hfound'
    cases hfound'
    simp only [ho, List.length_append, List.length_cons] at hbound ⊢
    omega

/-- **A tag text occurs inside of an outermost tag**, wherever it occurs, once it was read off some
text. -/
theorem Separate.occurrence_in_tag (hd : d.Separate) {content other a b : Text}
    (hother : d.Reads other) (h : content = a ++ (d.wrap other ++ b)) :
    ∃ before host after u v, d.scan content = before ++ .tag host :: after ∧
      a = Piece.unite d before ++ u ∧ d.wrap host = u ++ (d.wrap other ++ v) := by
  have hopening : content = a ++ (d.opening ++ (other ++ (d.closing ++ b))) := by
    rw [h]
    simp [wrap]
  rcases hd.opening_cases hopening with ⟨before, host, after, u, v, hscan, ha, hhost, hv⟩ |
    ⟨-, -, -, -, -, hnone⟩
  · have hsame : d.opening ++ (host ++ (d.closing ++ Piece.unite d after)) =
        u ++ (d.opening ++ (other ++ (d.closing ++ b))) := by
      have hcontent := d.unite_scan content
      rw [hscan, hopening, ha] at hcontent
      simpa [Piece.unite, Piece.written, wrap] using hcontent
    -- The inner tag is closed before the outer one is.
    have hlen : u.length + other.length ≤ host.length := by
      obtain ⟨e, hclose, rfl⟩ := hd.close?_of_scan hscan
      refine hd.length_le_of_occurrence hclose hother hsame ?_
      have hpos := List.length_pos_iff.2 hv
      rw [hhost, List.length_append]
      omega
    -- Two beginnings of one text, the shorter one begins the longer one.
    have hprefix : u ++ d.wrap other <+: d.wrap host := by
      have hcontent : d.wrap host ++ Piece.unite d after = u ++ d.wrap other ++ b := by
        simpa [wrap] using hsame
      refine List.prefix_of_prefix_length_le (List.prefix_append _ b)
        ⟨Piece.unite d after, hcontent⟩ ?_
      simp only [wrap, List.length_append]
      omega
    obtain ⟨v', hv'⟩ := hprefix
    exact ⟨before, host, after, u, v', hscan, ha, by rw [← hv', List.append_assoc]⟩
  · exact absurd ⟨other, b, by simp⟩ hnone

/-- With delimiters that have no character in common, a piece is untouched when no tag text occurs
inside of it; and that is always so for the text between tags. -/
theorem Separate.untouched_of_clear (hd : d.Separate) {content : Text} {before after : List Piece}
    {piece : Piece} (hscan : d.scan content = before ++ piece :: after)
    (hclear : d.Clear content piece) :
    d.Untouched content (Piece.unite d before).length
      ((Piece.unite d before).length + (piece.written d).length) := by
  rintro other hmem hother ⟨a, b, hocc, hlt, hgt⟩
  obtain ⟨before', host, after', u, v, hscan', rfl, hhost⟩ :=
    hd.occurrence_in_tag (hd.reads_of_mem_tags hmem) hocc
  have hlen := congrArg List.length hhost
  simp only [List.length_append] at hlt hgt hlen
  -- The occurrence is inside of its host, so the host is the piece, or before it, or behind it.
  rcases List.append_eq_append_iff.1 (hscan.symm.trans hscan') with ⟨c, hbefore, hc⟩ |
    ⟨c, hbefore, hc⟩
  · rcases c with - | ⟨first, c⟩
    · cases hc
      exact hclear other hmem hother ⟨u, v, by rw [hhost, List.append_assoc]⟩
    · cases hc
      simp only [hbefore, Piece.unite, List.flatMap_append, List.flatMap_cons,
        List.length_append] at hlt
      omega
  · rcases c with - | ⟨first, c⟩
    · cases hc
      exact hclear other hmem hother ⟨u, v, by rw [hhost, List.append_assoc]⟩
    · cases hc
      simp only [hbefore, Piece.unite, List.flatMap_append, List.flatMap_cons, Piece.written,
        List.length_append] at hgt
      omega

end Delimiters

/-! ### What a pass replaces -/

namespace Search

variable {search : Search} {ctx : Context}

/-- Where uncacheable tags are not resolved and nothing is removed, a tag that is marked is left. -/
theorem triage_of_waiting (huncacheable : ctx.processUncacheable = false)
    (hremove : ctx.removeUnprocessed = false) (started : Bool) {inner : Text}
    (h : Waiting inner) : search.triage ctx started inner = .leave := by
  have hmark : inner.head? = some '!' := h
  simp [triage, huncacheable, hremove, hmark, TagSource.uncacheableMark]

/-- A decision about a tag records an output of it, or nothing. -/
theorem eq_or_record_of_judge {inner : Text} {resolve : Run (Option Text)} {tally tally' : Tally}
    {s s' : State} (h : search.judge ctx inner resolve tally s = (.ok tally', s')) :
    tally' = tally ∨ search.triage ctx s.uncacheableStarted inner ≠ .leave ∧
      ∃ output, tally' = tally.record (search.delimiters.wrap inner) output := by
  rw [judge_apply] at h
  cases htriage : search.triage ctx s.uncacheableStarted inner with
  | drop =>
    rw [htriage, carryOut] at h
    cases h
    exact .inr ⟨by decide, [], rfl⟩
  | leave =>
    rw [htriage, carryOut] at h
    cases h
    exact .inl rfl
  | resolve =>
    rw [htriage, carryOut, map_apply] at h
    rcases hrun : resolve s with ⟨err | output, s₁⟩ <;> rw [hrun] at h <;> cases h
    cases output with
    | some output => exact .inr ⟨by decide, output, rfl⟩
    | none =>
      rw [noted]
      split
      · exact .inr ⟨by decide, [], rfl⟩
      · exact .inl rfl

/-- What is recorded are texts of tags that are not marked. -/
theorem exists_of_mem_judgeAll (huncacheable : ctx.processUncacheable = false)
    (hremove : ctx.removeUnprocessed = false) {inners : List Text}
    {resolve : (inner : Text) → inner ∈ inners → Run (Option Text)} {tally tally' : Tally}
    {s s' : State} (h : search.judgeAll ctx inners resolve tally s = (.ok tally', s'))
    {rule : Text.Rule} (hmem : rule ∈ tally'.outputs.entries) :
    rule ∈ tally.outputs.entries ∨
      ∃ inner ∈ inners, ¬Waiting inner ∧ search.delimiters.wrap inner = rule.1 := by
  induction inners generalizing tally s with
  | nil => cases h; exact .inl hmem
  | cons inner inners ih =>
    rw [judgeAll, bind_apply] at h
    rcases hfirst : search.judge ctx inner (resolve inner List.mem_cons_self) tally s with
      ⟨err | tally₁, s₁⟩ <;> rw [hfirst] at h
    · cases h
    · rcases ih h with hrule | ⟨other, hother, hrule⟩
      · rcases eq_or_record_of_judge hfirst with rfl | ⟨htriage, output, rfl⟩
        · exact .inl hrule
        · rcases Properties.mem_put hrule with rfl | hrule
          · refine .inr ⟨inner, List.mem_cons_self, fun hwaiting ↦ htriage ?_, rfl⟩
            exact triage_of_waiting huncacheable hremove _ hwaiting
          · exact .inl hrule
      · exact .inr ⟨other, List.mem_cons_of_mem _ hother, hrule⟩

end Search

/-! ### What callers get -/

namespace Engine

/-- A budget of one is one pass. -/
theorem processTags_single (e : Engine) {request : Request} (hdepth : request.maxDepth ≤ 1)
    (content : Text) (s : State) :
    e.processTags request content s = (e.search request).pass (e.contextOf request) content
      (fun inner _ ↦ e.resolveInner (e.search request).delimiters (e.contextOf request) inner)
      ((e.contextOf request).announce s).2 := by
  have hpasses := processTags_apply e request request.maxDepth content s
  rw [Nat.sub_eq_zero_of_le hdepth, Search.passes] at hpasses
  exact hpasses

/-- **A tag that waits stays where no other tag reaches it.** When a single pass that resolves no
uncacheable tag and removes nothing succeeds, the content that it answers can be cut into one part
for each piece of the content that it was given, in their order, so that the text between tags and
the tags marked uncacheable are unchanged, wherever no text of another outermost tag overlaps them.
With delimiters that have no character in common, that is all of the text between tags, and each
uncacheable tag that does not hold the text of an outermost tag that may be resolved. -/
theorem waiting_tags_stay (e : Engine) {request : Request}
    (huncacheable : request.processUncacheable = false)
    (hremove : request.removeUnprocessed = false) (hdepth : request.maxDepth ≤ 1)
    {content out : Text} {count : ℕ} {s s' : State}
    (hrun : e.processTags request content s = (.ok (out, count), s')) :
    let d := (e.search request).delimiters
    Piece.Keeps d (fun start piece ↦ piece.Stays ∧
        d.Untouched content start (start + (piece.written d).length)) 0 (d.scan content) out ∧
      (d.Separate → Piece.Keeps d (fun _ piece ↦ piece.Stays ∧ d.Clear content piece) 0
        (d.scan content) out) := by
  intro d
  let kept (start : ℕ) (piece : Piece) : Prop :=
    piece.Stays ∧ d.Untouched content start (start + (piece.written d).length)
  rw [e.processTags_single hdepth] at hrun
  obtain ⟨tally, hall, rfl, -⟩ := Search.exists_tally_of_pass hrun
  -- Every rule is the text of an outermost tag that is not marked.
  have huntouched (start : ℕ) (piece : Piece) (hkept : kept start piece) (rule : Text.Rule)
      (hmem : rule ∈ tally.outputs.entries) :
      ¬Text.Overlaps rule.1 content start (start + (piece.written d).length) := by
    rcases Search.exists_of_mem_judgeAll huncacheable hremove hall hmem with
      hempty | ⟨inner, hinner, hmark, hrule⟩
    · cases hempty
    · rw [← hrule]
      exact hkept.2 inner hinner hmark
  have hcontent : content = [] ++ Piece.unite d (d.scan content) := (d.unite_scan content).symm
  have hkeeps : Piece.Keeps d kept 0 (d.scan content)
      (Text.replaceFrom tally.outputs.entries 0 (Piece.unite d (d.scan content))) :=
    Piece.keeps_replaceFrom hcontent huntouched (.inl rfl)
  rw [d.unite_scan] at hkeeps
  refine ⟨hkeeps, fun hd ↦ hkeeps.imp fun before piece after hscan hpiece ↦ ⟨hpiece.1, ?_⟩⟩
  rw [Nat.zero_add]
  exact hd.untouched_of_clear hscan hpiece.2

/-- A waiting tag around a comment, the same comment, and another waiting tag. -/
def surrounding : Text := "[[!a[[-x]]]][[-x]][[!b]]".toList

/-- The scan finds the tag with the comment inside it, the comment behind it and the last tag. -/
theorem scan_surrounding :
    Delimiters.brackets.scan surrounding =
      [.plain [], .tag "!a[[-x]]".toList, .plain [], .tag "-x".toList, .plain [],
        .tag "!b".toList, .plain []] := by
  have hd := Delimiters.separate_brackets
  have hfirst : Delimiters.brackets.counted? surrounding =
      some ([], "!a[[-x]]".toList, "[[-x]][[!b]]".toList) := by decide +kernel
  have hsecond : Delimiters.brackets.counted? "[[-x]][[!b]]".toList =
      some ([], "-x".toList, "[[!b]]".toList) := by decide +kernel
  have hthird : Delimiters.brackets.counted? "[[!b]]".toList =
      some ([], "!b".toList, []) := by decide +kernel
  have hlast : Delimiters.brackets.counted? [] = none := by decide +kernel
  rw [hd.scan_of_some hfirst, hd.scan_of_some hsecond, hd.scan_of_some hthird,
    hd.scan_of_none hlast]

/-- The comment is dropped wherever its text occurs. -/
theorem processTags_surrounding :
    bare.processTags { maxDepth := 1 } surrounding { store := .empty } =
      (.ok ("[[!a]][[!b]]".toList, 1), { store := .empty }) := by
  have htags : (bare.search { maxDepth := 1 }).delimiters.tags surrounding =
      ["!a[[-x]]".toList, "-x".toList, "!b".toList] :=
    congrArg (List.filterMap Piece.inner?) scan_surrounding
  rw [processTags_single bare (Nat.le_refl 1), Search.pass, htags]
  rfl

/-- The other waiting tag stays. -/
theorem waiting_tags_stay_surrounding :
    let request : Request := { maxDepth := 1 }
    let d := (bare.search request).delimiters
    let out := "[[!a]][[!b]]".toList
    request.processUncacheable = false ∧ request.removeUnprocessed = false ∧
      request.maxDepth ≤ 1 ∧
      bare.processTags request surrounding { store := .empty } =
        (.ok (out, 1), { store := .empty }) ∧
      Piece.Keeps d (fun start piece ↦ piece.Stays ∧
        d.Untouched surrounding start (start + (piece.written d).length)) 0 (d.scan surrounding)
          out ∧
      (d.Separate → Piece.Keeps d (fun _ piece ↦ piece.Stays ∧ d.Clear surrounding piece) 0
        (d.scan surrounding) out) :=
  ⟨rfl, rfl, Nat.le_refl 1, processTags_surrounding,
    waiting_tags_stay bare rfl rfl (Nat.le_refl 1) processTags_surrounding⟩

/-- **A waiting tag can change**: the one that holds the text of the comment does. -/
theorem waiting_tag_changed :
    bare.processTags { maxDepth := 1 } surrounding { store := .empty } =
        (.ok ("[[!a]][[!b]]".toList, 1), { store := .empty }) ∧
      ¬Piece.Keeps .brackets (fun _ piece ↦ piece.Stays) 0 (Delimiters.brackets.scan surrounding)
        "[[!a]][[!b]]".toList := by
  refine ⟨processTags_surrounding, ?_⟩
  rw [scan_surrounding]
  rintro ⟨first, rest, hout, -, tag, rest', rfl, htag, -⟩
  have hinfix : "[[!a[[-x]]]]".toList <:+: "[[!a]][[!b]]".toList :=
    ⟨first, rest', by rw [hout, htag rfl, List.append_assoc]; rfl⟩
  revert hinfix
  decide

end Engine

end TagTemplate
