import TagTemplate.Proofs.EncodedSeparators
import TagTemplate.Proofs.WaitingTags

/-!
# Tags that are removed

A pass that resolves no uncacheable tags and removes what stays unresolved has to know an
uncacheable tag when it meets one, and it looks at the first character of the inner text. When a tag
is resolved it is read in another way: the name is what stands in front of the first question mark,
without blanks around it and, where that is empty, what stands behind it. So a tag with blanks or a
question mark in front of its mark is uncacheable, but the pass does not see it. It is passed on to
be resolved, is refused there, and its own text is put in its place (`Engine.resolve_of_refused`,
`Engine.removed_by_first_character`).

The outputs are put in place by text, and a tag gets its own output wherever it leads: no text of a
tag that occurs in the content covers its first character, but for those that begin there and are no
longer (`Piece.fills_replaceFrom`).
-/

namespace TagTemplate

open Run

namespace Text

variable {delimiter c : Char}

/-- The first segment begins with the first character of the text, unless that is blank or cuts. -/
theorem head?_splitQuoted (hc : c ≠ delimiter) (hblank : isBlank c = false) (limit : ℕ) (t : Text) :
    ((splitQuoted delimiter quoteMark (limit + 1) (c :: t)).headD []).head? = some c := by
  have hfirm : Firm [c] := ⟨List.cons_ne_nil c [], by simpa using hblank, by simpa using hblank⟩
  have htrim (x : Text) : trim (c :: x) = c :: trimEnd x := hfirm.trim_append x
  rw [splitQuoted]
  split
  · obtain ⟨x, xs, hpieces⟩ :
        ∃ x xs, pieces delimiter quoteMark false (c :: t) = (c :: x) :: xs :=
      exists_pieces_cons hc t
    have hne : trim (c :: x) ≠ [] := by
      rw [htrim]
      exact List.cons_ne_nil _ _
    rw [if_neg (Nat.succ_ne_zero limit), segments_eq_tidied, hpieces, tidied_cons_of_ne_nil hne,
      htrim]
    rfl
  · rw [htrim]
    rfl

end Text

/-- A comment is not read as uncacheable. -/
theorem TagSource.uncacheable_of_comment {inner : Text} (h : inner.head? = some '-') :
    (read inner).uncacheable = false := by
  obtain ⟨t, rfl⟩ := List.head?_eq_some_iff.1 h
  have hhead := Text.head?_splitQuoted (show '-' ≠ '?' by decide) (by decide) 1 t
  rw [read]
  dsimp only
  rw [hhead]
  decide

/-! ### Tags that get their outputs -/

namespace Delimiters

variable {d : Delimiters} {content inner : Text}

/-- No tag is empty. -/
theorem wrap_ne_nil_of_mem_tags (h : inner ∈ d.tags content) : d.wrap inner ≠ [] := by
  intro hnil
  have hd : ¬d.usable = true := by
    rw [wrap, List.append_assoc, List.append_eq_nil_iff] at hnil
    simp [usable, hnil.1]
  rw [tags, scan, dif_neg hd] at h
  cases h

/-- Where a tag stands behind so many characters of the content, no text of an outermost tag that
occurs in it covers the first character of the tag, but for those that begin there and are no
longer. -/
def Leads (d : Delimiters) (content : Text) (start : ℕ) (inner : Text) : Prop :=
  ∀ other ∈ d.tags content, ∀ a b, content = a ++ (d.wrap other ++ b) → a.length ≤ start →
    start < a.length + (d.wrap other).length → a.length = start ∧ other.length ≤ inner.length

end Delimiters

namespace Piece

variable {d : Delimiters} {output : Text → Text} {leads : ℕ → Text → Prop} {rules : List Text.Rule}

/-- The text can be cut into one part for each piece, in their order, so that the part of each tag
that leads is its output. Whether a tag leads is told by its inner text and by how many characters
stand before it, of which there are `start` before the first piece. -/
def Fills (d : Delimiters) (output : Text → Text) (leads : ℕ → Text → Prop) :
    (start : ℕ) → List Piece → Text → Prop
  | _, [], out => out = []
  | start, piece :: pieces, out =>
    ∃ part rest, out = part ++ rest ∧
      (∀ inner, piece = .tag inner → leads start inner → part = output inner) ∧
      Fills d output leads (start + (piece.written d).length) pieces rest

section Leads

variable {content before inner : Text}
  (hrules : ∀ rule ∈ rules, ∃ inner ∈ d.tags content, (d.wrap inner, output inner) = rule)
  (hleads : d.Leads content before.length inner)
include hrules hleads

/-- No match reaches into a tag that leads. -/
theorem eq_zero_of_leads {skip : ℕ} (h : Text.Reaches rules content before.length skip) :
    skip = 0 := by
  obtain h | ⟨rule, hmem, a, b, hocc, hlt, hreach⟩ := h
  · exact h
  · obtain ⟨other, hother, rfl⟩ := hrules rule hmem
    refine Nat.eq_zero_of_not_pos fun hpos ↦ ?_
    have hcovers : before.length < a.length + (d.wrap other).length :=
      hreach ▸ Nat.lt_add_of_pos_right hpos
    exact Nat.ne_of_lt hlt (hleads other hother a b hocc (Nat.le_of_lt hlt) hcovers).1

/-- The rule of a tag that leads is picked where the tag begins. -/
theorem ruleAt?_of_leads {t : Text} (hcontent : content = before ++ (d.wrap inner ++ t))
    (hown : (d.wrap inner, output inner) ∈ rules) (hne : d.wrap inner ≠ []) :
    Text.ruleAt? rules (d.wrap inner ++ t) = some (d.wrap inner, output inner) := by
  have hmatch : Text.Matches (d.wrap inner, output inner) (d.wrap inner ++ t) :=
    ⟨hne, List.prefix_append _ _⟩
  cases hrule : Text.ruleAt? rules (d.wrap inner ++ t) with
  | none => exact absurd hmatch (Text.ruleAt?_eq_none_iff.1 hrule _ hown)
  | some rule =>
    obtain ⟨hmem, ⟨hrulene, b, hb⟩, hlongest⟩ := Text.ruleAt?_spec hrule
    obtain ⟨other, hother, rfl⟩ := hrules rule hmem
    have hpos := List.length_pos_iff.2 hrulene
    obtain ⟨-, hshort⟩ := hleads other hother before b (by rw [hcontent, ← hb]) (Nat.le_refl _)
      (by dsimp only at hpos; omega)
    have hlong := hlongest _ hown hmatch
    -- Both texts begin the content at the tag, and they are equally long.
    have hlength : (d.wrap other).length = (d.wrap inner).length := by
      simp only [Delimiters.wrap, List.length_append] at hlong ⊢
      omega
    have hsame : d.wrap other = d.wrap inner := (List.append_inj hb hlength).1
    rw [d.wrap_injective hsame]

end Leads

/-- **A tag that leads gets its output.** -/
theorem fills_replaceFrom {content before : Text} {skip : ℕ} {pieces : List Piece}
    (hrules : ∀ rule ∈ rules, ∃ inner ∈ d.tags content, (d.wrap inner, output inner) = rule)
    (hall : ∀ inner, tag inner ∈ pieces → (d.wrap inner, output inner) ∈ rules)
    (hcontent : content = before ++ unite d pieces)
    (h : Text.Reaches rules content before.length skip) :
    Fills d output (d.Leads content) before.length pieces
      (Text.replaceFrom rules skip (unite d pieces)) := by
  induction pieces generalizing before skip with
  | nil => rfl
  | cons piece pieces ih =>
    have hbehind : content = before ++ piece.written d ++ unite d pieces := by
      rw [hcontent, List.append_assoc]
      rfl
    have hlater : ∀ inner, tag inner ∈ pieces → (d.wrap inner, output inner) ∈ rules :=
      fun inner hinner ↦ hall inner (List.mem_cons_of_mem _ hinner)
    have hlen : (before ++ piece.written d).length = before.length + (piece.written d).length :=
      List.length_append
    by_cases hpiece : ∃ inner, piece = tag inner ∧ d.Leads content before.length inner
    · -- A tag that leads is read where it begins, as nothing before it reaches into it.
      obtain ⟨inner, rfl, hleads⟩ := hpiece
      obtain rfl := eq_zero_of_leads hrules hleads h
      have hown := hall inner List.mem_cons_self
      obtain ⟨other, hother, hrule⟩ := hrules _ hown
      have hne : d.wrap inner ≠ [] :=
        (Prod.mk.inj hrule).1 ▸ Delimiters.wrap_ne_nil_of_mem_tags hother
      have hput : Text.replaceFrom rules 0 (d.wrap inner ++ unite d pieces) =
          output inner ++ Text.replaceFrom rules 0 (unite d pieces) := by
        have hreplace :=
          Text.replaceAll_of_ruleAt? (ruleAt?_of_leads hrules hleads hcontent hown hne)
        rwa [List.drop_left] at hreplace
      refine ⟨output inner, _, hput, fun other htag _ ↦ by cases htag; rfl, ?_⟩
      rw [← hlen]
      exact ih hlater hbehind (.inl rfl)
    · -- Of any other piece nothing is said.
      obtain ⟨out, skip', hout, hreaches⟩ := h.exists_replaceFrom hcontent
      refine ⟨out, _, hout, fun inner htag hleads ↦ absurd ⟨inner, htag, hleads⟩ hpiece, ?_⟩
      rw [← hlen]
      exact ih hlater hbehind hreaches

end Piece

/-! ### What the pass decides -/

namespace Search

variable {search : Search} {ctx : Context} {inner : Text}

/-- A tag that is marked is dropped by a pass that removes it. -/
theorem triage_of_removed (huncacheable : ctx.processUncacheable = false)
    (hremove : ctx.removeUnprocessed = true) (h : Waiting inner) :
    search.triage ctx false inner = .drop := by
  have hmark : inner.head? = some '!' := h
  simp [triage, huncacheable, hremove, hmark, TagSource.uncacheableMark]

/-- What the pass does not see to be marked, it resolves, unless it is a comment or the tag itself
whose content is searched. -/
theorem triage_of_unmarked (htokens : search.tokens = []) (hcomment : inner.head? ≠ some '-')
    (h : ¬Waiting inner) (started : Bool) :
    search.triage ctx started inner =
      if search.delimiters.wrap inner = search.selfTag then .drop else .resolve := by
  have hmark : ¬inner.head? = some '!' := h
  simp [triage, htokens, hcomment, hmark, TagSource.uncacheableMark]

/-- Nothing is left alone. -/
theorem triage_ne_leave (huncacheable : ctx.processUncacheable = false)
    (hremove : ctx.removeUnprocessed = true) (htokens : search.tokens = []) (inner : Text) :
    search.triage ctx false inner ≠ .leave := by
  by_cases hcomment : inner.head? = some '-'
  · simp [triage, hcomment]
  · by_cases hmark : Waiting inner
    · rw [triage_of_removed huncacheable hremove hmark]
      decide
    · rw [triage_of_unmarked htokens hcomment hmark]
      split <;> decide

/-- A pass over a content without tags does nothing. -/
theorem pass_of_tagless {content : Text} (h : search.delimiters.tags content = [])
    (resolve : Text → Run (Option Text)) (s : State) :
    search.pass ctx content (fun inner _ ↦ resolve inner) s = (.ok (content, 0), s) := by
  have hsame : content.replaceAll Tally.empty.outputs.entries = content :=
    Text.replaceAll_eq_self (List.forall_mem_nil _) content
  rw [pass, h, judgeAll, pure_bind, hsame]
  rfl

end Search

/-- The announcement of a context that does not allow uncacheable tags changes nothing. -/
theorem Context.announce_of_refusing {ctx : Context} (h : ctx.processUncacheable = false)
    (s : State) : ctx.announce s = (.ok (), s) :=
  announce_of_latched fun hallowed ↦ by rw [h] at hallowed; cases hallowed

namespace Engine

/-- **An uncacheable tag is refused** where uncacheable tags are not resolved: it answers its own
text. -/
theorem resolve_of_refused (e : Engine) {d : Delimiters} {ctx : Context} {inner : Text}
    (huncacheable : ctx.processUncacheable = false) (hnested : d.tags inner = [])
    (hread : (TagSource.read inner).uncacheable = true) (outer : Text) (s : State) :
    e.resolve d ctx outer inner s = (.ok (some (d.wrap inner)), s) := by
  have hcomment : ¬inner.head? = some '-' := fun h ↦ by
    rw [TagSource.uncacheable_of_comment h] at hread
    cases hread
  have harguments (s : State) : (Search.mk d outer []).pass ctx.forArguments inner
      (fun nested _ ↦ e.resolve d ctx.forArguments (d.wrap nested) nested) s =
        (.ok (inner, 0), s) :=
    Search.pass_of_tagless hnested
      (fun nested ↦ e.resolve d ctx.forArguments (d.wrap nested) nested) s
  rw [resolve_eq_resolveOnce, resolveOnce, if_neg hcomment, bind_apply,
    Context.announce_of_refusing huncacheable]
  dsimp only
  rw [bind_apply, harguments]
  dsimp only
  rw [if_pos ⟨hread, huncacheable⟩]
  rfl

/-- What a tag comes to in a pass that begins in the state: nothing if the pass drops it, else what
it answers alone. -/
def swept (e : Engine) (request : Request) (s : State) (inner : Text) :
    Except TagError (Option Text) :=
  match (e.search request).triage (e.contextOf request) s.uncacheableStarted inner with
  | .drop => .ok (some [])
  | _ => (e.resolveInner (e.search request).delimiters (e.contextOf request) inner s).1

end Engine

/-- A request that resolves no uncacheable tags and removes all tags that stay unresolved, in a
state in which uncacheable tags were never allowed. -/
structure Request.Sweeps (request : Request) (s : State) : Prop where
  refuses : request.processUncacheable = false
  removes : request.removeUnprocessed = true
  tokens : request.tokens = []
  fresh : s.uncacheableStarted = false

namespace Request.Sweeps

variable {e : Engine} {request : Request} {content inner : Text} {s : State}

/-- A sweep does not set the latch. -/
theorem announce (h : request.Sweeps s) : (e.contextOf request).announce s = (.ok (), s) :=
  Context.announce_of_refusing h.refuses s

/-- A tag that is marked comes to nothing. -/
theorem swept_of_waiting (h : request.Sweeps s) (hmark : Waiting inner) :
    e.swept request s inner = .ok (some []) := by
  rw [Engine.swept, h.fresh, Search.triage_of_removed h.refuses h.removes hmark]

/-- An uncacheable tag that is not marked comes to its own text. -/
theorem swept_of_refused (h : request.Sweeps s) (hmark : ¬Waiting inner)
    (hnested : (e.search request).delimiters.tags inner = [])
    (hread : (TagSource.read inner).uncacheable = true) :
    let outer := (e.search request).delimiters.wrap inner
    e.swept request s inner = .ok (some (if outer = request.selfTag then [] else outer)) := by
  intro outer
  have hcomment : inner.head? ≠ some '-' := fun hdash ↦ by
    rw [TagSource.uncacheable_of_comment hdash] at hread
    cases hread
  have hself : (e.search request).selfTag = request.selfTag := rfl
  rw [Engine.swept, Search.triage_of_unmarked h.tokens hcomment hmark, hself]
  by_cases hsame : outer = request.selfTag
  · rw [if_pos hsame, if_pos hsame]
  · rw [if_neg hsame, if_neg hsame]
    exact congrArg Prod.fst (e.resolve_of_refused h.refuses hnested hread outer s)

/-- The decision of the pass about a tag is what the tag comes to. -/
theorem judge (h : request.Sweeps s) (inner : Text) (tally : Tally) {s' : State}
    (hsim : s.Similar s') :
    ((e.search request).judge (e.contextOf request) inner
      (e.resolveInner (e.search request).delimiters (e.contextOf request) inner) tally s').1 =
      (e.swept request s inner).map fun output ↦
        tally.record ((e.search request).delimiters.wrap inner) (output.getD []) := by
  refine Search.judge_answer h.removes ?_ tally
  have hstarted : s'.uncacheableStarted = s.uncacheableStarted := hsim.2
  rw [hstarted, Engine.swept]
  cases htriage : (e.search request).triage (e.contextOf request) s.uncacheableStarted inner with
  | drop => exact .inr ⟨rfl, rfl⟩
  | leave =>
    rw [h.fresh] at htriage
    exact absurd htriage (Search.triage_ne_leave h.refuses h.removes h.tokens inner)
  | resolve =>
    refine .inl ⟨rfl, e.resolveInner_answer _ ?_ inner⟩
    rwa [h.announce]

/-- **A single pass puts in place what its tags come to.** -/
theorem eq_replaceAll (h : request.Sweeps s) (hdepth : request.maxDepth ≤ 1) {out : Text}
    {count : ℕ} {s' : State} (hrun : e.processTags request content s = (.ok (out, count), s')) :
    let d := (e.search request).delimiters
    out = content.replaceAll (Tally.empty.recordAll d (replacement (e.swept request s))
      (d.tags content)).outputs.entries := by
  intro d
  let ctx := e.contextOf request
  have hresolve (inner : Text) : Run.Scoped false (fun _ ↦ True) (e.resolveInner d ctx inner) := by
    have hscoped := Engine.scoped_resolve e.raisesOnly_true d ctx (d.wrap inner) inner
    rwa [show ctx.processUncacheable = false from h.refuses] at hscoped
  have hlatched : s.Latched false := nofun
  have hdecided : ((e.search request).judgeAll ctx (d.tags content)
      (fun inner _ ↦ e.resolveInner d ctx inner) .empty s).1 =
        (askAll (e.swept request s) (d.tags content)).map fun _ ↦
          Tally.empty.recordAll d (replacement (e.swept request s)) (d.tags content) :=
    Search.judgeAll_answer hresolve hlatched (fun inner _ tally _ ↦ h.judge inner tally) .empty
      ⟨rfl, rfl⟩
  rw [e.processTags_single hdepth, h.announce] at hrun
  obtain ⟨tally, hall, rfl, -⟩ := Search.exists_tally_of_pass hrun
  rw [hall] at hdecided
  cases hasked : askAll (e.swept request s) (d.tags content) with
  | error err =>
    rw [hasked] at hdecided
    cases hdecided
  | ok _ =>
    rw [hasked] at hdecided
    rw [Except.ok.inj hdecided]

end Request.Sweeps

/-! ### What callers get -/

namespace Engine

/-- **What is removed goes by the first character.** When a single pass that resolves no uncacheable
tag and removes what stays unresolved succeeds, in a state in which uncacheable tags were never
allowed, each outermost tag that leads is replaced by an output, and with delimiters that have no
character in common that is what becomes of all of them, while the text between tags stays. The
output of a tag that begins with the mark is empty. But a tag without tags in it that is uncacheable
as it is read and does not begin with the mark stays as it is, unless it is the tag whose content is
processed. -/
theorem removed_by_first_character (e : Engine) {request : Request} {content out : Text} {count : ℕ}
    {s s' : State} (hsweeps : request.Sweeps s) (hdepth : request.maxDepth ≤ 1)
    (hrun : e.processTags request content s = (.ok (out, count), s')) :
    let d := (e.search request).delimiters
    ∃ output : Text → Text,
      (∀ inner ∈ d.tags content, Waiting inner → output inner = []) ∧
      (∀ inner ∈ d.tags content, d.tags inner = [] → (TagSource.read inner).uncacheable = true →
        ¬Waiting inner →
          output inner = if d.wrap inner = request.selfTag then [] else d.wrap inner) ∧
      Piece.Fills d output (d.Leads content) 0 (d.scan content) out ∧
      (d.Separate → out = (d.scan content).flatMap (Piece.filled output)) := by
  intro d
  let output := replacement (e.swept request s)
  have hout := hsweeps.eq_replaceAll hdepth hrun
  refine ⟨output, fun inner _ hmark ↦ ?_, fun inner _ hnested hread hmark ↦ ?_, ?_, fun hd ↦ ?_⟩
  · -- The pass looks at the first character of the inner text.
    show replacement (e.swept request s) inner = []
    rw [replacement, hsweeps.swept_of_waiting hmark]
    rfl
  · -- The reader looks at the trimmed name, and refuses what the pass let through.
    show replacement (e.swept request s) inner = _
    rw [replacement, hsweeps.swept_of_refused hmark hnested hread]
    rfl
  · -- What stands in the place of a tag is put there by the one replacement of the pass.
    have hcontent : content = [] ++ Piece.unite d (d.scan content) := (d.unite_scan content).symm
    have hrules : ∀ rule ∈ (Tally.empty.recordAll d output (d.tags content)).outputs.entries,
        ∃ inner ∈ d.tags content, (d.wrap inner, output inner) = rule := fun rule hmem ↦
      (Tally.exists_of_mem_recordAll hmem).resolve_left (List.not_mem_nil (a := rule))
    have hall : ∀ inner, .tag inner ∈ d.scan content → (d.wrap inner, output inner) ∈
        (Tally.empty.recordAll d output (d.tags content)).outputs.entries :=
      fun inner hinner ↦ Tally.mem_recordAll (List.mem_filterMap.2 ⟨.tag inner, hinner, rfl⟩)
    have hfills := Piece.fills_replaceFrom hrules hall hcontent (.inl rfl)
    rw [d.unite_scan] at hfills
    rw [hout]
    exact hfills
  · rw [hout]
    exact hd.replaceAll_scan (Tally.merges_recordAll fun _ ↦ hd.reads_of_mem_tags)
      fun _ ↦ Tally.mem_recordAll

/-- A tag that begins with its mark, and one with a blank in front of it. -/
def spaced : Text := "[[!a]]x[[ !b]]".toList

theorem scan_spaced :
    Delimiters.brackets.scan spaced =
      [.plain [], .tag "!a".toList, .plain ['x'], .tag " !b".toList, .plain []] := by
  have hd := Delimiters.separate_brackets
  have hfirst : Delimiters.brackets.counted? spaced =
      some ([], "!a".toList, "x[[ !b]]".toList) := by decide +kernel
  have hsecond : Delimiters.brackets.counted? "x[[ !b]]".toList =
      some (['x'], " !b".toList, []) := by decide +kernel
  have hlast : Delimiters.brackets.counted? [] = none := by decide +kernel
  rw [hd.scan_of_some hfirst, hd.scan_of_some hsecond, hd.scan_of_none hlast]

/-- A pass that removes uncacheable tags. -/
def sweeping : Request := { removeUnprocessed := true, maxDepth := 1 }

theorem tags_spaced : (bare.search sweeping).delimiters.tags spaced = ["!a".toList, " !b".toList] :=
  congrArg (List.filterMap Piece.inner?) scan_spaced

theorem tags_of_counted {inner : Text} (h : Delimiters.brackets.counted? inner = none) :
    (bare.search sweeping).delimiters.tags inner = [] :=
  congrArg (List.filterMap Piece.inner?) (Delimiters.separate_brackets.scan_of_none h)

/-- The pass removes the one tag and keeps the other one. -/
theorem processTags_spaced (s : State) (hlatch : s.uncacheableStarted = false) :
    bare.processTags sweeping spaced s = (.ok ("x[[ !b]]".toList, 1), s) := by
  let search := bare.search sweeping
  let ctx := bare.contextOf sweeping
  let run := bare.resolveInner search.delimiters ctx
  let marked : Tally := Tally.empty.record "[[!a]]".toList []
  let refused : Tally := marked.record "[[ !b]]".toList "[[ !b]]".toList
  have hfirst : search.judge ctx "!a".toList (run "!a".toList) .empty s = (.ok marked, s) := by
    rw [Search.judge_apply, hlatch]
    rfl
  have hsecond : search.judge ctx " !b".toList (run " !b".toList) marked s = (.ok refused, s) := by
    have hrefused : run " !b".toList s = (.ok (some "[[ !b]]".toList), s) :=
      bare.resolve_of_refused rfl (tags_of_counted (by decide +kernel)) (by decide) _ s
    rw [Search.judge_apply, hlatch]
    show search.carryOut ctx " !b".toList (run " !b".toList) marked .resolve s = _
    rw [Search.carryOut, map_apply, hrefused]
    rfl
  have hannounce : ctx.announce s = (.ok (), s) := Context.announce_of_refusing rfl s
  rw [processTags_single bare (Nat.le_refl 1), hannounce, Search.pass, tags_spaced, bind_apply,
    Search.judgeAll, bind_apply, hfirst]
  dsimp only
  rw [Search.judgeAll, bind_apply, hsecond]
  rfl

/-- The tag without the blank is removed, and the other one is what it was. -/
theorem removed_spaced :
    let d := (bare.search sweeping).delimiters
    let s : State := { store := .empty }
    let out := "x[[ !b]]".toList
    sweeping.Sweeps s ∧ sweeping.maxDepth ≤ 1 ∧
      bare.processTags sweeping spaced s = (.ok (out, 1), s) ∧
      ∃ output : Text → Text,
        (∀ inner ∈ d.tags spaced, Waiting inner → output inner = []) ∧
        (∀ inner ∈ d.tags spaced, d.tags inner = [] → (TagSource.read inner).uncacheable = true →
          ¬Waiting inner →
            output inner = if d.wrap inner = sweeping.selfTag then [] else d.wrap inner) ∧
        Piece.Fills d output (d.Leads spaced) 0 (d.scan spaced) out ∧
        (d.Separate → out = (d.scan spaced).flatMap (Piece.filled output)) := by
  intro d s out
  have hsweeps : sweeping.Sweeps s := ⟨rfl, rfl, rfl, rfl⟩
  exact ⟨hsweeps, Nat.le_refl 1, processTags_spaced s rfl,
    removed_by_first_character bare hsweeps (Nat.le_refl 1) (processTags_spaced s rfl)⟩

/-- **Not every uncacheable tag is removed**: the one with the blank is not replaced by nothing. -/
theorem spaced_not_removed :
    let d := (bare.search sweeping).delimiters
    let s : State := { store := .empty }
    sweeping.Sweeps s ∧ sweeping.maxDepth ≤ 1 ∧
      bare.processTags sweeping spaced s = (.ok ("x[[ !b]]".toList, 1), s) ∧
      ¬∃ output : Text → Text,
        (∀ inner ∈ d.tags spaced, d.tags inner = [] → (TagSource.read inner).uncacheable = true →
          output inner = []) ∧
        "x[[ !b]]".toList = (d.scan spaced).flatMap (Piece.filled output) := by
  refine ⟨⟨rfl, rfl, rfl, rfl⟩, Nat.le_refl 1, processTags_spaced _ rfl, ?_⟩
  rintro ⟨output, hremoved, hout⟩
  rw [tags_spaced] at hremoved
  have hfirst : output "!a".toList = [] :=
    hremoved _ List.mem_cons_self (tags_of_counted (by decide +kernel)) (by decide)
  have hsecond : output " !b".toList = [] :=
    hremoved _ (List.mem_cons_of_mem _ List.mem_cons_self) (tags_of_counted (by decide +kernel))
      (by decide)
  have hscan : (bare.search sweeping).delimiters.scan spaced = _ := scan_spaced
  rw [hscan] at hout
  simp only [List.flatMap_cons, List.flatMap_nil, Piece.filled_plain, Piece.filled_tag, hfirst,
    hsecond] at hout
  exact absurd hout (by decide)

end Engine

end TagTemplate
