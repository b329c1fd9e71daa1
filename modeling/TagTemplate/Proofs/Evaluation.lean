import TagTemplate.Proofs.OpenTags
import TagTemplate.Proofs.Substitution
import TagTemplate.Proofs.TagNotation

/-!
# What runs come to

A run *yields* a result when it comes to it from every state with the given store in which
uncacheable tags were allowed before, and changes nothing but the flag (`Run.Yields`). The functions
of the engine have one rule each: what a pass yields from what its tags come to (`Search.Comes`),
what passes yield, a content, a tag, and what callers ask for. With these rules a resolution is
followed without states. A content with a single tag may also fail with it (`Search.Goes`), and so
may the tag that the content belongs to.

They are rules for contexts in which unresolved tags stay, so that a tag without an answer is left
in place; and for contents without nested tags, in which it can be left in place safely. Such
contents settle in one pass: the pieces with an answer become texts (`Piece.settle`), and if these
are plain there is nothing left for a second pass to do (`Search.passes_yields_settle`).
-/

namespace TagTemplate

namespace Run

variable {α β : Type}

/-- From every state with the store in which the latch is set, the run comes to the result and
changes the flag at most. -/
def Yields (store : Store) (run : Run α) (result : Except TagError α) : Prop :=
  ∀ s : State, s.store = store → s.uncacheableStarted = true →
    ∃ marked, run s = (result, { s with processingElement := marked })

namespace Yields

variable {store : Store} {run : Run α}

theorem pure (a : α) : Yields store (Pure.pure a) (.ok a) := fun s _ _ ↦ ⟨s.processingElement, rfl⟩

/-- A run that goes on after an answer comes to what the rest of it comes to. -/
theorem bind {k : α → Run β} {a : α} {result : Except TagError β} (h : Yields store run (.ok a))
    (hk : Yields store (k a) result) : Yields store (run >>= k) result := by
  intro s hstore hstarted
  obtain ⟨marked, hrun⟩ := h s hstore hstarted
  obtain ⟨marked', hrest⟩ := hk { s with processingElement := marked } hstore hstarted
  refine ⟨marked', ?_⟩
  rw [bind_apply, hrun]
  exact hrest

/-- A run that fails is not continued. -/
theorem bind_error {err : TagError} (h : Yields store run (.error err)) (k : α → Run β) :
    Yields store (run >>= k) (.error err) := by
  intro s hstore hstarted
  obtain ⟨marked, hrun⟩ := h s hstore hstarted
  refine ⟨marked, ?_⟩
  rw [bind_apply, hrun]

theorem map {result : Except TagError α} (f : α → β) (h : Yields store run result) :
    Yields store (f <$> run) (result.map f) := by
  rw [← bind_pure_comp]
  cases result with
  | error err => exact h.bind_error _
  | ok a => exact h.bind (pure (f a))

/-- To announce a context has an effect on the latch only. -/
theorem announce (ctx : Context) : Yields store ctx.announce (.ok ()) := by
  intro s _ hstarted
  refine ⟨s.processingElement, ?_⟩
  rw [announce_apply, hstarted, Bool.true_or]

/-- With the properties of a tag as placeholders, what counts is the store with them. -/
theorem exposing (tag : Tag) {result : Except TagError α}
    (h : Yields (tag.storeWithin store) run result) : Yields store (tag.exposing run) result := by
  intro s hstore hstarted
  obtain ⟨marked, hrun⟩ := h { s with store := tag.storeWithin store } rfl hstarted
  refine ⟨marked, ?_⟩
  cases hkind : tag.kind with
  | placeholder =>
    rw [Tag.storeWithin, hkind, ← hstore] at hrun
    rw [exposing_of_placeholder hkind]
    exact hrun
  | chunk =>
    rw [Tag.storeWithin, hkind] at hrun
    rw [exposing_apply_of_chunk hkind, hstore]
    dsimp only at hrun ⊢
    rw [hrun]
    simp only [Store.restore_writeProperties, ← hstore]

end Yields

end Run

open Run

/-! ### Passes -/

/-- In a search for all tags, a cacheable call is resolved, unless it is the tag that is
searched. -/
theorem Search.triage_call (tag : Text) (ctx : Context) (started : Bool) (name rest : Text) :
    (Search.mk .brackets tag []).triage ctx started (TagSource.callStart false name ++ rest) =
      if Delimiters.brackets.wrap (TagSource.callStart false name ++ rest) = tag then .drop
      else .resolve := by
  simp [triage, TagSource.callStart, TagSource.marks, TagKind.token, TagSource.uncacheableMark]

/-- The piece after the answer of its tag, if it has one, was put in its place. -/
def Piece.settle (answer : Text → Option Text) : Piece → Piece
  | .plain t => .plain t
  | .tag inner => match answer inner with
    | some output => .plain output
    | none => .tag inner

namespace Search

variable {search : Search} {ctx : Context} {store : Store} {resolve : Text → Run (Option Text)}
  {answer : Text → Option Text} {content : Text} {pieces : List Piece}

/-- What a tag comes to where unresolved tags stay: its output, if it has one. -/
def Comes (search : Search) (ctx : Context) (store : Store) (resolve : Text → Run (Option Text))
    (inner : Text) (output : Option Text) : Prop :=
  match search.triage ctx true inner with
  | .drop => output = some []
  | .leave => output = none
  | .resolve => (resolve inner).Yields store (.ok output)

/-- The tally of a pass: the answers of the tags that have one. -/
def tallyOf (search : Search) (answer : Text → Option Text) (inners : List Text) : Tally → Tally :=
  .recordAll search.delimiters (fun inner ↦ (answer inner).getD [])
    (inners.filter fun inner ↦ (answer inner).isSome)

/-- A tag that comes to an output, or to none, is noted with it. -/
theorem judge_yields (hctx : ctx.removeUnprocessed = false) {inner : Text} {output : Option Text}
    (h : search.Comes ctx store resolve inner output) (tally : Tally) :
    (search.judge ctx inner (resolve inner) tally).Yields store
      (.ok (search.noted ctx inner tally output)) := by
  intro s hstore hstarted
  have hjudge : search.judge ctx inner (resolve inner) tally s =
      search.carryOut ctx inner (resolve inner) tally (search.triage ctx true inner) s := by
    rw [judge_apply, hstarted]
  rw [hjudge]
  rw [Comes] at h
  cases htriage : search.triage ctx true inner with
  | drop =>
    rw [htriage] at h
    obtain rfl : output = some [] := h
    exact ⟨s.processingElement, rfl⟩
  | leave =>
    rw [htriage] at h
    obtain rfl : output = none := h
    refine ⟨s.processingElement, ?_⟩
    rw [noted, hctx]
    rfl
  | resolve =>
    rw [htriage] at h
    exact h.map (search.noted ctx inner tally) s hstore hstarted

/-- All tags of a pass are noted in this way, by induction on them. -/
theorem judgeAll_yields (hctx : ctx.removeUnprocessed = false) {inners : List Text}
    (h : ∀ inner ∈ inners, search.Comes ctx store resolve inner (answer inner)) (tally : Tally) :
    (search.judgeAll ctx inners (fun inner _ ↦ resolve inner) tally).Yields store
      (.ok (search.tallyOf answer inners tally)) := by
  induction inners generalizing tally with
  | nil => exact .pure tally
  | cons inner inners ih =>
    rw [List.forall_mem_cons] at h
    refine (judge_yields hctx h.1 tally).bind ?_
    have hrest := ih h.2 (search.noted ctx inner tally (answer inner))
    cases hanswer : answer inner with
    | none =>
      have hskip : search.tallyOf answer (inner :: inners) tally =
          search.tallyOf answer inners tally := by
        rw [tallyOf, List.filter_cons_of_neg (by simp [hanswer]), ← tallyOf]
      rw [hanswer, noted, hctx] at hrest
      rw [hskip, noted, hctx]
      exact hrest
    | some output =>
      have hrecord : search.tallyOf answer (inner :: inners) tally =
          search.tallyOf answer inners (tally.record (search.delimiters.wrap inner) output) := by
        rw [tallyOf, List.filter_cons_of_pos (by simp [hanswer]), Tally.recordAll, List.foldl_cons,
          hanswer]
        rfl
      rw [hanswer, noted] at hrest
      rw [hrecord, noted]
      exact hrest

/-- A pass puts the answers of its tags in place. -/
theorem pass_yields (hctx : ctx.removeUnprocessed = false) {inners : List Text}
    (htags : search.delimiters.tags content = inners)
    (h : ∀ inner ∈ inners, search.Comes ctx store resolve inner (answer inner)) :
    (search.pass ctx content fun inner _ ↦ resolve inner).Yields store
      (.ok (content.replaceAll (search.tallyOf answer inners .empty).outputs.entries,
        (search.tallyOf answer inners .empty).count)) := by
  subst htags
  exact (judgeAll_yields hctx h .empty).bind (.pure _)

/-- A pass in which no tag has an answer changes nothing. -/
theorem pass_yields_self (hctx : ctx.removeUnprocessed = false)
    (h : ∀ inner ∈ search.delimiters.tags content, search.Comes ctx store resolve inner none) :
    (search.pass ctx content fun inner _ ↦ resolve inner).Yields store (.ok (content, 0)) := by
  let answer : Text → Option Text := fun _ ↦ none
  have hanswers : ∀ inner ∈ search.delimiters.tags content,
      search.Comes ctx store resolve inner (answer inner) := h
  have hpass := pass_yields hctx rfl hanswers
  have hnone : search.tallyOf answer (search.delimiters.tags content) .empty = .empty := by
    have hfilter : (search.delimiters.tags content).filter
        (fun _ ↦ (none : Option Text).isSome) = [] := List.filter_eq_nil_iff.2 fun _ _ ↦ by simp
    rw [tallyOf, hfilter]
    rfl
  have hsame : content.replaceAll Tally.empty.outputs.entries = content :=
    Text.replaceAll_eq_self (List.forall_mem_nil _) content
  rw [hnone, hsame] at hpass
  exact hpass

/-- A pass in which every tag has an answer puts each of them in the place of its tag. -/
theorem pass_yields_scan (hd : search.delimiters.Separate) (hctx : ctx.removeUnprocessed = false)
    {output : Text → Text}
    (h : ∀ inner ∈ search.delimiters.tags content,
      search.Comes ctx store resolve inner (some (output inner))) :
    ∃ count, (search.pass ctx content fun inner _ ↦ resolve inner).Yields store
      (.ok ((search.delimiters.scan content).flatMap (Piece.filled output), count)) := by
  let answer (inner : Text) : Option Text := some (output inner)
  let rules := (Tally.empty.recordAll search.delimiters output
    (search.delimiters.tags content)).outputs.entries
  have hanswers : ∀ inner ∈ search.delimiters.tags content,
      search.Comes ctx store resolve inner (answer inner) := h
  have hpass := pass_yields hctx rfl hanswers
  have hall : search.tallyOf answer (search.delimiters.tags content) .empty =
      Tally.empty.recordAll search.delimiters output (search.delimiters.tags content) := by
    have hfilter : (search.delimiters.tags content).filter (fun inner ↦ (some (output inner)).isSome)
        = search.delimiters.tags content := List.filter_eq_self.2 fun _ _ ↦ rfl
    rw [tallyOf, hfilter]
    rfl
  have hmerges : search.delimiters.Merges output rules :=
    Tally.merges_recordAll fun inner ↦ hd.reads_of_mem_tags
  have hmerged : content.replaceAll rules =
      (search.delimiters.scan content).flatMap (Piece.filled output) :=
    hd.replaceAll_scan hmerges fun inner ↦ Tally.mem_recordAll
  rw [hall, hmerged] at hpass
  exact ⟨_, hpass⟩

/-- The rules of a pass are the answers of its tags. -/
theorem exists_of_mem_tallyOf {inners : List Text} {rule : Text.Rule}
    (h : rule ∈ (search.tallyOf answer inners .empty).outputs.entries) :
    ∃ inner ∈ inners, ∃ output, answer inner = some output ∧
      rule = (search.delimiters.wrap inner, output) := by
  rcases Tally.exists_of_mem_recordAll h with hempty | ⟨inner, hmem, hrule⟩
  · cases hempty
  · obtain ⟨hinner, hsome⟩ := List.mem_filter.1 hmem
    obtain ⟨output, hanswer⟩ := Option.isSome_iff_exists.1 hsome
    rw [hanswer] at hrule
    exact ⟨inner, hinner, output, hanswer, hrule.symm⟩

/-- What was noted for a tag is in the tally. -/
theorem mem_tallyOf {inners : List Text} {inner output : Text} (hmem : inner ∈ inners)
    (h : answer inner = some output) :
    (search.delimiters.wrap inner, output) ∈
      (search.tallyOf answer inners .empty).outputs.entries := by
  have hfiltered : inner ∈ inners.filter fun inner ↦ (answer inner).isSome :=
    List.mem_filter.2 ⟨hmem, by rw [h]; rfl⟩
  have hrule : (search.delimiters.wrap inner, (answer inner).getD []) ∈
      (search.tallyOf answer inners .empty).outputs.entries := Tally.mem_recordAll hfiltered
  rw [h] at hrule
  exact hrule

theorem mem_of_flat {d : Delimiters} (hflat : ∀ piece ∈ pieces, piece.Flat d) {inner : Text}
    (h : inner ∈ pieces.filterMap Piece.inner?) : d.Plain inner := by
  obtain ⟨piece, hmem, hinner⟩ := List.mem_filterMap.1 h
  cases piece with
  | plain t => cases hinner
  | tag inner' =>
    obtain rfl : inner' = inner := Option.some.inj hinner
    exact hflat _ hmem

/-- **A pass over a content without nested tags** settles its pieces. -/
theorem pass_yields_settle (hd : search.delimiters.Separate)
    (hctx : ctx.removeUnprocessed = false)
    (hflat : ∀ piece ∈ pieces, piece.Flat search.delimiters)
    (h : ∀ inner ∈ pieces.filterMap Piece.inner?,
      search.Comes ctx store resolve inner (answer inner)) :
    ∃ count, (search.pass ctx (Piece.unite search.delimiters pieces)
      fun inner _ ↦ resolve inner).Yields store
        (.ok (Piece.unite search.delimiters (pieces.map (Piece.settle answer)), count)) := by
  have hpass := pass_yields hctx (hd.tags_unite hflat) h
  let rules := (search.tallyOf answer (pieces.filterMap Piece.inner?) .empty).outputs.entries
  have hrules : search.delimiters.Answers answer rules := by
    intro rule hrule
    obtain ⟨inner, hmem, output, hanswer, hrule⟩ := exists_of_mem_tallyOf hrule
    exact ⟨inner, output, mem_of_flat hflat hmem, hanswer, hrule⟩
  have hmerged := hd.replaceAll_unite hrules hflat fun inner hmem output ↦ mem_tallyOf hmem
  have hsettled : pieces.flatMap (Piece.filled fun inner ↦
      (answer inner).getD (search.delimiters.wrap inner)) =
      Piece.unite search.delimiters (pieces.map (Piece.settle answer)) := by
    rw [Piece.unite, List.flatMap_map]
    refine List.flatMap_congr fun piece _ ↦ ?_
    cases piece with
    | plain t => rfl
    | tag inner => rw [Piece.filled_tag, Piece.settle]; cases answer inner <;> rfl
  rw [hmerged, hsettled] at hpass
  exact ⟨_, hpass⟩

/-- The tags that are left in a content that has settled had no answer. -/
theorem mem_of_mem_tags_settle {d : Delimiters} (hd : d.Separate)
    (hflat : ∀ piece ∈ pieces, piece.Flat d)
    (hplain : ∀ inner ∈ pieces.filterMap Piece.inner?, ∀ output, answer inner = some output →
      d.Plain output) {inner : Text}
    (h : inner ∈ d.tags (Piece.unite d (pieces.map (Piece.settle answer)))) :
    inner ∈ pieces.filterMap Piece.inner? ∧ answer inner = none := by
  have hsettled : ∀ piece ∈ pieces, (piece.settle answer).Flat d ∧
      ∀ inner, (piece.settle answer).inner? = some inner →
        piece.inner? = some inner ∧ answer inner = none := by
    intro piece hpiece
    cases piece with
    | plain t => exact ⟨hflat _ hpiece, fun inner hinner ↦ nomatch hinner⟩
    | tag inner =>
      rw [Piece.settle]
      cases hanswer : answer inner with
      | some output =>
        have houtput := hplain inner (List.mem_filterMap.2 ⟨_, hpiece, rfl⟩) output hanswer
        exact ⟨houtput, fun inner hinner ↦ nomatch hinner⟩
      | none =>
        refine ⟨hflat _ hpiece, fun inner' hinner ↦ ?_⟩
        obtain rfl : inner = inner' := Option.some.inj hinner
        exact ⟨rfl, hanswer⟩
  have hflatSettled : ∀ piece ∈ pieces.map (Piece.settle answer), piece.Flat d :=
    List.forall_mem_map.2 fun piece hpiece ↦ (hsettled piece hpiece).1
  rw [hd.tags_unite hflatSettled] at h
  obtain ⟨settled, hmem, hinner⟩ := List.mem_filterMap.1 h
  obtain ⟨piece, hpiece, rfl⟩ := List.mem_map.1 hmem
  obtain ⟨hinner, hnone⟩ := (hsettled piece hpiece).2 inner hinner
  exact ⟨List.mem_filterMap.2 ⟨piece, hpiece, hinner⟩, hnone⟩

/-- Passes stop at a content that a pass does not change. -/
theorem passes_yields {content' : Text} {count : ℕ}
    (hfirst : (search.pass ctx content fun inner _ ↦ resolve inner).Yields store
      (.ok (content', count)))
    (hfixed : (search.pass ctx content' fun inner _ ↦ resolve inner).Yields store
      (.ok (content', 0))) (further : ℕ) :
    ∃ total, (search.passes ctx resolve further content).Yields store (.ok (content', total)) := by
  have hagain (further : ℕ) :
      (search.passes ctx resolve further content').Yields store (.ok (content', 0)) := by
    cases further with
    | zero => exact hfixed
    | succ further => exact hfixed.bind (.pure _)
  cases further with
  | zero => exact ⟨count, hfirst⟩
  | succ further =>
    by_cases hcount : count = 0
    · subst hcount
      exact ⟨0, hfirst.bind (.pure _)⟩
    · refine ⟨count + 0, hfirst.bind ?_⟩
      dsimp only
      rw [if_neg hcount]
      exact (hagain further).bind (.pure _)

/-- If the first tag fails, so do the passes. -/
theorem passes_yields_error {inner : Text} {inners : List Text} {err : TagError}
    (htags : search.delimiters.tags content = inner :: inners)
    (htriage : search.triage ctx true inner = .resolve)
    (h : (resolve inner).Yields store (.error err)) (further : ℕ) :
    (search.passes ctx resolve further content).Yields store (.error err) := by
  have hjudge (tally : Tally) :
      (search.judge ctx inner (resolve inner) tally).Yields store (.error err) := by
    intro s hstore hstarted
    have hdecided : search.judge ctx inner (resolve inner) tally s =
        (search.noted ctx inner tally <$> resolve inner) s := by
      rw [judge_apply, hstarted, htriage, carryOut]
    rw [hdecided]
    exact h.map (search.noted ctx inner tally) s hstore hstarted
  have hpass : (search.pass ctx content fun inner _ ↦ resolve inner).Yields store (.error err) := by
    rw [pass, htags]
    exact ((hjudge .empty).bind_error _).bind_error _
  cases further with
  | zero => exact hpass
  | succ further => exact hpass.bind_error _

/-- **Passes over a content without nested tags** settle its pieces, if the answers are plain. -/
theorem passes_yields_settle (hd : search.delimiters.Separate)
    (hctx : ctx.removeUnprocessed = false)
    (hflat : ∀ piece ∈ pieces, piece.Flat search.delimiters)
    (h : ∀ inner ∈ pieces.filterMap Piece.inner?,
      search.Comes ctx store resolve inner (answer inner) ∧
        ∀ output, answer inner = some output → search.delimiters.Plain output) (further : ℕ) :
    ∃ total, (search.passes ctx resolve further (Piece.unite search.delimiters pieces)).Yields store
      (.ok (Piece.unite search.delimiters (pieces.map (Piece.settle answer)), total)) := by
  obtain ⟨count, hfirst⟩ := pass_yields_settle hd hctx hflat fun inner hinner ↦ (h inner hinner).1
  refine passes_yields hfirst (pass_yields_self hctx fun inner hinner ↦ ?_) further
  obtain ⟨hmem, hnone⟩ := mem_of_mem_tags_settle hd hflat (fun inner hinner ↦ (h inner hinner).2)
    hinner
  have hcomes := (h inner hmem).1
  rw [hnone] at hcomes
  exact hcomes

/-- What a tag that does not stay comes to: an output, or an error. -/
def Goes (search : Search) (ctx : Context) (store : Store) (resolve : Text → Run (Option Text))
    (inner : Text) (result : Except TagError Text) : Prop :=
  match search.triage ctx true inner with
  | .drop => result = .ok []
  | .leave => False
  | .resolve => (resolve inner).Yields store (result.map some)

/-- What a tag goes to as a text, it comes to as an output. -/
theorem Goes.comes {inner out : Text} (h : search.Goes ctx store resolve inner (.ok out)) :
    search.Comes ctx store resolve inner (some out) := by
  rw [Goes] at h
  rw [Comes]
  cases htriage : search.triage ctx true inner with
  | drop => rw [htriage] at h; exact congrArg some (Except.ok.inj h)
  | leave => rw [htriage] at h; exact h.elim
  | resolve => rw [htriage] at h; exact h

theorem Comes.goes {inner out : Text} (h : search.Comes ctx store resolve inner (some out)) :
    search.Goes ctx store resolve inner (.ok out) := by
  rw [Comes] at h
  rw [Goes]
  cases htriage : search.triage ctx true inner with
  | drop => rw [htriage] at h; exact congrArg _ (Option.some.inj h)
  | leave => rw [htriage] at h; cases h
  | resolve => rw [htriage] at h; exact h

/-- A tag goes to an error only if it is resolved, and its resolution ends in that error. -/
theorem Goes.of_error {inner : Text} {err : TagError}
    (h : search.Goes ctx store resolve inner (.error err)) :
    search.triage ctx true inner = .resolve ∧ (resolve inner).Yields store (.error err) := by
  rw [Goes] at h
  cases htriage : search.triage ctx true inner with
  | drop => rw [htriage] at h; cases h
  | leave => rw [htriage] at h; exact h.elim
  | resolve => rw [htriage] at h; exact ⟨rfl, h⟩

/-- **Passes over a content with one tag** put what it comes to in its place, or fail with it. -/
theorem passes_yields_single (hd : search.delimiters.Separate)
    (hctx : ctx.removeUnprocessed = false) {before inner after : Text}
    (hbefore : search.delimiters.Plain before) (hinner : search.delimiters.Plain inner)
    (hafter : search.delimiters.Plain after)
    {result : Except TagError Text} (h : search.Goes ctx store resolve inner result)
    (hplain : ∀ out, result = .ok out → search.delimiters.Plain out) (further : ℕ) :
    ∃ total, (search.passes ctx resolve further
      (before ++ (search.delimiters.wrap inner ++ after))).Yields store
        (result.map fun out ↦ (before ++ (out ++ after), total)) := by
  let pieces : List Piece := [.plain before, .tag inner, .plain after]
  have hflat : ∀ piece ∈ pieces, piece.Flat search.delimiters := by
    simp only [pieces, List.forall_mem_cons]
    exact ⟨hbefore, hinner, hafter, List.forall_mem_nil _⟩
  have hcontent : Piece.unite search.delimiters pieces =
      before ++ (search.delimiters.wrap inner ++ after) := by
    simp [pieces, Piece.unite, Piece.written]
  rw [← hcontent]
  cases result with
  | error err =>
    -- The first pass fails, and so there is no other one.
    obtain ⟨htriage, herror⟩ := h.of_error
    exact ⟨0, passes_yields_error (hd.tags_unite hflat) htriage herror further⟩
  | ok out =>
    let answer (_ : Text) : Option Text := some out
    have hanswers : ∀ other ∈ pieces.filterMap Piece.inner?,
        search.Comes ctx store resolve other (answer other) ∧
          ∀ output, answer other = some output → search.delimiters.Plain output := by
      intro other hother
      obtain rfl : other = inner := List.mem_singleton.1 hother
      exact ⟨h.comes, fun output houtput ↦ hplain output (congrArg _ (Option.some.inj houtput))⟩
    -- The content settles, and what it settles to has the output in the place of the tag.
    obtain ⟨total, hpasses⟩ := passes_yields_settle hd hctx hflat hanswers further
    refine ⟨total, ?_⟩
    have hsettled : Piece.unite search.delimiters (pieces.map (Piece.settle answer)) =
        before ++ (out ++ after) := by
      simp [pieces, answer, Piece.unite, Piece.settle, Piece.written]
    rw [hsettled] at hpasses
    exact hpasses

end Search

/-! ### Tags and their contents -/

/-- What a loaded content comes to: nothing if it is empty, and otherwise the error of entering it,
or what its body comes to. -/
theorem Tag.fill_yields {tag : Tag} {store : Store} {entered : Except TagError Context}
    {body : Context → Text → Run Text} {content : Text} {result : Except TagError Text}
    (hempty : content = [] → result = .ok [])
    (herror : content ≠ [] → ∀ err, entered = .error err → result = .error err)
    (hbody : content ≠ [] → ∀ below, entered = .ok below →
      (body below content).Yields (tag.storeWithin store) result) :
    (tag.fill entered body (some content)).Yields store (result.map some) := by
  rcases content with - | ⟨c, content⟩
  · rw [hempty rfl]
    exact .pure _
  · cases entered with
    | error err =>
      rw [herror (List.cons_ne_nil _ _) err rfl]
      exact fun s _ _ ↦ ⟨s.processingElement, rfl⟩
    | ok below => exact .exposing tag ((hbody (List.cons_ne_nil _ _) below rfl).map some)

namespace Engine

variable {e : Engine} {store : Store} {ctx : Context}

/-- The tag that an inner text reads as, at the start of the attempt to resolve it. -/
def tagOf (e : Engine) (d : Delimiters) (store : Store) (inner : Text) : Tag :=
  (Tag.ofSource (TagSource.read inner) (d.wrap inner)).prepared e store
    (TagSource.read inner).properties

/-- Without filters, the output is what the content came to. -/
theorem filtered_tagOf {d : Delimiters} {inner name : Text}
    (h : FilterChain.splitName (TagSource.read inner).rawName = (name, []))
    (filled : Option Text) : (e.tagOf d store inner).filtered filled = filled := by
  show (if (FilterChain.splitName (TagSource.read inner).rawName).2.isEmpty then filled else _) =
    filled
  rw [h]
  rfl

/-- How the content of a tag with the given text is resolved. -/
def bodyOf (e : Engine) (tag : Text) (below : Context) : Text → Run Text :=
  e.resolveWithin tag below (e.resolveInner e.options.delimiters below)

/-- **A content without nested tags** settles, if the answers of its tags are plain. -/
theorem bodyOf_yields {d : Delimiters} (hd : d.Separate) (hoptions : e.options.delimiters = d)
    (hctx : ctx.removeUnprocessed = false) {tag : Text} {answer : Text → Option Text}
    {pieces : List Piece} (hflat : ∀ piece ∈ pieces, piece.Flat d)
    (h : ∀ inner ∈ pieces.filterMap Piece.inner?,
      (Search.mk d tag []).Comes ctx store (e.resolveInner d ctx) inner (answer inner) ∧
        ∀ output, answer inner = some output → d.Plain output) :
    (e.bodyOf tag ctx (Piece.unite d pieces)).Yields store
      (.ok (Piece.unite d (pieces.map (Piece.settle answer)))) := by
  subst hoptions
  let search : Search := ⟨e.options.delimiters, tag, []⟩
  have hsearch : search.delimiters.Separate := hd
  obtain ⟨total, hpasses⟩ := Search.passes_yields_settle hsearch hctx hflat h (ctx.maxDepth - 1)
  exact (Yields.announce ctx).bind (hpasses.bind (.pure _))

/-- A plain content resolves to itself. -/
theorem bodyOf_yields_self {d : Delimiters} (hd : d.Separate) (hoptions : e.options.delimiters = d)
    (hctx : ctx.removeUnprocessed = false) {tag content : Text} (h : d.Plain content) :
    (e.bodyOf tag ctx content).Yields store (.ok content) := by
  let pieces : List Piece := [.plain content]
  have hflat : ∀ piece ∈ pieces, piece.Flat d := List.forall_mem_singleton.2 h
  have hbody : (e.bodyOf tag ctx (Piece.unite d pieces)).Yields store
      (.ok (Piece.unite d (pieces.map (Piece.settle fun _ ↦ none)))) :=
    bodyOf_yields hd hoptions hctx hflat fun inner hinner ↦ nomatch hinner
  have hunite : Piece.unite d pieces = content := List.append_nil _
  have hsettled : Piece.unite d (pieces.map (Piece.settle fun _ ↦ none)) = content :=
    List.append_nil _
  rw [hunite, hsettled] at hbody
  exact hbody

/-- **A content with one tag** comes to what the tag comes to, between the texts around it. -/
theorem bodyOf_yields_single {d : Delimiters} (hd : d.Separate)
    (hoptions : e.options.delimiters = d) (hctx : ctx.removeUnprocessed = false)
    {tag before inner after : Text} (hbefore : d.Plain before) (hinner : d.Plain inner)
    (hafter : d.Plain after) {result : Except TagError Text}
    (h : (Search.mk d tag []).Goes ctx store (e.resolveInner d ctx) inner result)
    (hplain : ∀ out, result = .ok out → d.Plain out) :
    (e.bodyOf tag ctx (before ++ (d.wrap inner ++ after))).Yields store
      (result.map fun out ↦ before ++ (out ++ after)) := by
  subst hoptions
  let search : Search := ⟨e.options.delimiters, tag, []⟩
  have hsearch : search.delimiters.Separate := hd
  obtain ⟨total, hpasses⟩ := Search.passes_yields_single hsearch hctx hbefore hinner hafter h hplain
    (ctx.maxDepth - 1)
  refine (Yields.announce ctx).bind ?_
  cases result with
  | error err => exact hpasses.bind_error _
  | ok out => exact hpasses.bind (.pure _)

/-- A content that is one tag comes to what the tag comes to. -/
theorem bodyOf_yields_wrap {d : Delimiters} (hd : d.Separate) (hoptions : e.options.delimiters = d)
    (hctx : ctx.removeUnprocessed = false) {tag inner : Text} (hinner : d.Plain inner)
    {result : Except TagError Text}
    (h : (Search.mk d tag []).Goes ctx store (e.resolveInner d ctx) inner result)
    (hplain : ∀ out, result = .ok out → d.Plain out) :
    (e.bodyOf tag ctx (d.wrap inner)).Yields store result := by
  have hbody := bodyOf_yields_single hd hoptions hctx Delimiters.Plain.nil hinner
    Delimiters.Plain.nil h hplain
  have hresult : (result.map fun out ↦ [] ++ (out ++ [])) = result := by
    cases result <;> simp [Except.map]
  rw [List.nil_append, List.append_nil, hresult] at hbody
  exact hbody

/-- **A tag without filters yields** what its content comes to, be it an error, if its arguments do
not fail. -/
theorem resolve_yields {d : Delimiters} {outer inner resolved name : Text} {count : ℕ}
    {loaded : Option Text} {filled : Except TagError (Option Text)}
    (hcomment : inner.head? ≠ some '-')
    (hargs : ((Search.mk d outer []).pass ctx.forArguments inner
      fun nested _ ↦ e.resolveInner d ctx.forArguments nested).Yields store (.ok (resolved, count)))
    (hallowed : (TagSource.read resolved).uncacheable = true → ctx.processUncacheable = true)
    (hfilters : FilterChain.splitName (TagSource.read resolved).rawName = (name, []))
    (hload : (e.tagOf d store resolved).load e store = .ok loaded)
    (hfill : ((e.tagOf d store resolved).fill
      (e.enterContent (ctx.forSource (TagSource.read resolved)) (d.wrap resolved))
      (e.bodyOf (d.wrap resolved)) loaded).Yields store filled) :
    (e.resolve d ctx outer inner).Yields store
      (filled.map fun output ↦
        if output.isNone ∧ d.wrap resolved ≠ outer then some (d.wrap resolved) else output) := by
  -- The attempt comes to what the content comes to, for there are no filters to run.
  have hattempt : ((Tag.ofSource (TagSource.read resolved) (d.wrap resolved)).outputOf e
      (ctx.forSource (TagSource.read resolved)) (TagSource.read resolved).properties
      fun below _ ↦ e.bodyOf (d.wrap resolved) below).Yields store filled := by
    have hfiltered : (e.tagOf d store resolved).filtered = id := funext (filtered_tagOf hfilters)
    intro s hstore hstarted
    obtain ⟨marked, hrun⟩ := hfill.map (e.tagOf d store resolved).filtered
      { s with processingElement := true } hstore hstarted
    rw [hfiltered, Except.map_id] at hrun
    refine ⟨marked, ?_⟩
    subst hstore
    rw [Tag.outputOf_apply]
    show (e.tagOf d s.store resolved).produce ((e.tagOf d s.store resolved).load e s.store) _ _ _ = _
    rw [hload, Tag.produce, hfiltered]
    exact hrun
  -- The arguments come first, and the tag is not one that waits.
  rw [resolve_eq_resolveOnce, resolveOnce, if_neg hcomment]
  refine (Yields.announce ctx).bind (hargs.bind ?_)
  dsimp only
  rw [if_neg fun hwaits ↦ by simp [hallowed hwaits.1] at hwaits]
  rw [bind_pure_comp]
  exact hattempt.map _

/-- In arguments without brackets there is nothing to do. -/
theorem plain_arguments_yield {d : Delimiters} (hd : d.Separate) {inner : Text} (h : d.Plain inner)
    (outer : Text) :
    ((Search.mk d outer []).pass ctx.forArguments inner
      fun nested _ ↦ e.resolveInner d ctx.forArguments nested).Yields store (.ok (inner, 0)) := by
  refine Search.pass_yields_self rfl fun nested hnested ↦ ?_
  have htags : d.tags inner = [] := hd.tags_plain h
  exact absurd (htags ▸ hnested) List.not_mem_nil

/-- **A call of a chunk** comes to the error of entering the chunk, or to what its text comes to. -/
theorem resolve_call_yields {d : Delimiters} {outer inner resolved name body : Text} {marked : Bool}
    {raw : Option Text} {count : ℕ} {result : Except TagError Text}
    (hcomment : inner.head? ≠ some '-')
    (hargs : ((Search.mk d outer []).pass ctx.forArguments inner
      fun nested _ ↦ e.resolveInner d ctx.forArguments nested).Yields store (.ok (resolved, count)))
    (hread : TagSource.read resolved = ⟨marked, .chunk, name, raw⟩)
    (hname : FilterChain.splitName name = (name, []))
    (hallowed : marked = true → ctx.processUncacheable = true) (hbody : e.chunks name = .ok body)
    (hempty : body = [] → result = .ok [])
    (herror : body ≠ [] → ∀ err, e.enterContent (ctx.forSource (TagSource.read resolved))
      (d.wrap resolved) = .error err → result = .error err)
    (hyields : body ≠ [] → ∀ below, e.enterContent (ctx.forSource (TagSource.read resolved))
      (d.wrap resolved) = .ok below → (e.bodyOf (d.wrap resolved) below body).Yields
        ((e.tagOf d store resolved).storeWithin store) result) :
    (e.resolve d ctx outer inner).Yields store (result.map some) := by
  have hload : (e.tagOf d store resolved).load e store = .ok (some body) := by
    rw [tagOf, hread]
    show ((e.chunks (FilterChain.splitName name).1).map some).mapError _ = _
    rw [hname, hbody]
    rfl
  have hfilters : FilterChain.splitName (TagSource.read resolved).rawName = (name, []) := by
    rw [hread]
    exact hname
  have hfill := Tag.fill_yields hempty herror hyields
  have hresolve := resolve_yields hcomment hargs (by rw [hread]; exact hallowed) hfilters hload
    hfill
  cases result with
  | error err => exact hresolve
  | ok out => exact hresolve

end Engine

/-! ### Placeholder tags -/

namespace Engine

variable {e : Engine} {store : Store} {ctx : Context} {key : Text}

/-- **A placeholder tag yields the text of the placeholder**, or nothing if there is none. -/
theorem resolve_placeholder_yields {d : Delimiters} (hd : d.Separate)
    (hoptions : e.options.delimiters = d) {uncacheable : Bool} (hname : key.Word)
    (hplain : d.Plain (TagSource.placeholder uncacheable key))
    (hctx : ctx.removeUnprocessed = false)
    (hallowed : uncacheable = true → ctx.processUncacheable = true)
    (hnew : d.wrap (TagSource.placeholder uncacheable key) ∉ ctx.resolving)
    (hroom : 0 < e.room ctx)
    (hvalue : ∀ value, e.lookup store key = some value → d.Plain value) :
    (e.resolveInner d ctx (TagSource.placeholder uncacheable key)).Yields store
      (.ok (e.lookup store key)) := by
  let inner := TagSource.placeholder uncacheable key
  -- The tag is read as what was written.
  have hread : TagSource.read inner = ⟨uncacheable, .placeholder, key, none⟩ :=
    TagSource.read_placeholder uncacheable hname
  have hcomment : inner.head? ≠ some '-' := by
    rw [TagSource.head?_placeholder]
    cases uncacheable <;> decide
  have hload : (e.tagOf d store inner).load e store = .ok (e.lookup store key) := by
    rw [tagOf, hread]
    show Except.ok (e.lookup store (FilterChain.splitName key).1) = _
    rw [TagSource.splitName_word hname]
  have hfilters : FilterChain.splitName (TagSource.read inner).rawName = (key, []) := by
    rw [hread]
    exact TagSource.splitName_word hname
  -- Its content is the value, which has no tags, so that resolving it changes nothing.
  have hfill : ((e.tagOf d store inner).fill
      (e.enterContent (ctx.forSource (TagSource.read inner)) (d.wrap inner))
      (e.bodyOf (d.wrap inner)) (e.lookup store key)).Yields store (.ok (e.lookup store key)) := by
    cases hlookup : e.lookup store key with
    | none => exact .pure none
    | some value =>
      let source := TagSource.read inner
      have hnewBelow : d.wrap inner ∉ (ctx.forSource source).resolving := hnew
      have hroomBelow : 0 < e.room (ctx.forSource source) := hroom
      obtain ⟨below, hentered, -, -, -, hremove⟩ := enterContent_of_room hnewBelow hroomBelow
      have hbody : (e.bodyOf (d.wrap inner) below value).Yields
          ((e.tagOf d store inner).storeWithin store) (.ok value) :=
        bodyOf_yields_self hd hoptions (hremove.trans hctx) (hvalue value hlookup)
      rw [show e.enterContent (ctx.forSource source) (d.wrap inner) = .ok below from hentered]
      exact Tag.fill_yields (congrArg _) (fun _ _ herror ↦ nomatch herror)
        fun _ below' hbelow ↦ Except.ok.inj hbelow ▸ hbody
  have hresolve := resolve_yields hcomment (plain_arguments_yield hd hplain (d.wrap inner))
    (by rw [hread]; exact hallowed) hfilters hload hfill
  rw [Except.map, if_neg fun h ↦ h.2 rfl] at hresolve
  exact hresolve

/-- What a placeholder tag comes to in a search: an uncacheable one may have to wait. -/
theorem comes_placeholder {d : Delimiters} (hd : d.Separate)
    (hoptions : e.options.delimiters = d) {uncacheable : Bool} (hname : key.Word)
    (hplain : d.Plain (TagSource.placeholder uncacheable key))
    (hctx : ctx.removeUnprocessed = false) {tag : Text}
    (hself : d.wrap (TagSource.placeholder uncacheable key) ≠ tag)
    (hnew : d.wrap (TagSource.placeholder uncacheable key) ∉ ctx.resolving)
    (hroom : 0 < e.room ctx)
    (hvalue : ∀ value, e.lookup store key = some value → d.Plain value) :
    (Search.mk d tag []).Comes ctx store (e.resolveInner d ctx)
      (TagSource.placeholder uncacheable key)
      (if uncacheable && !ctx.processUncacheable then none else e.lookup store key) := by
  let inner := TagSource.placeholder uncacheable key
  have hcomment : inner.head? ≠ some '-' := by
    rw [TagSource.head?_placeholder]
    cases uncacheable <;> decide
  have hmark : inner.head? = some TagSource.uncacheableMark ↔ uncacheable = true := by
    rw [TagSource.head?_placeholder]
    cases uncacheable <;> decide
  rw [Search.Comes, Search.triage, if_neg hcomment]
  by_cases hwaits : uncacheable = true ∧ ctx.processUncacheable = false
  · -- The tag waits for a later pass.
    rw [if_pos ⟨hmark.2 hwaits.1, hwaits.2⟩, if_neg fun h ↦ by simp [hctx] at h]
    simp [hwaits]
  · -- The tag is resolved.
    have hallowed : uncacheable = true → ctx.processUncacheable = true := by
      simpa using hwaits
    have hanswer : (uncacheable && !ctx.processUncacheable) = false := by
      cases uncacheable with
      | false => rfl
      | true => simp [hallowed rfl]
    rw [if_neg fun h ↦ hwaits ⟨hmark.1 h.1, h.2⟩, if_neg fun h ↦ h.1 rfl, if_neg hself, hanswer]
    exact resolve_placeholder_yields hd hoptions hname hplain hctx hallowed hnew hroom hvalue

end Engine

namespace Engine

variable {e : Engine}

/-! ### What callers get -/

/-- The terms on which a content is resolved fully. -/
abbrev fullRequest (e : Engine) : Request :=
  { processUncacheable := true, maxDepth := e.options.maxIterations }

/-- The context in which a content is resolved fully. -/
abbrev fullContext (e : Engine) : Context := e.contextOf e.fullRequest

/-- What passes over a content yield is what resolving it fully answers. -/
theorem process_of_yields {d : Delimiters} (hoptions : e.options.delimiters = d) {content : Text}
    {result : Except TagError (Text × ℕ)} {s : State}
    (h : ((Search.mk d [] []).passes e.fullContext (e.resolveInner d e.fullContext)
      (e.options.maxIterations - 1) content).Yields s.store result) :
    (e.process content s).1 = result.map Prod.fst := by
  subst hoptions
  have hstarted : (e.fullContext.announce s).2.uncacheableStarted = true := by
    rw [announce_apply]
    exact Bool.or_true _
  obtain ⟨marked, hrun⟩ := h (e.fullContext.announce s).2 rfl hstarted
  have htags := (processTags_apply e e.fullRequest e.options.maxIterations content s).trans hrun
  have hcall : e.process content = e.processTags e.fullRequest content >>= fun result ↦
    pure result.1 := rfl
  rw [hcall, bind_apply, show e.processTags e.fullRequest content s = _ from htags]
  cases result <;> rfl

end Engine

end TagTemplate
