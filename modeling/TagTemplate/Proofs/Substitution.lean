import TagTemplate.Proofs.Merge
import TagTemplate.Proofs.PassBudget

/-!
# Tag by tag

A pass that resolves everything and removes what has no value comes to what the tags of the content
come to one by one: the text outside of tags stays, each tag is replaced where it stands by what
resolving it alone answers, and the first tag that fails makes the pass fail
(`Engine.processTags_of_separate`).

There are two steps. Resolving is quiet, so no tag can tell which tags were resolved before it, and
the decisions about the tags are the answers of the tags in their order (`Search.judgeAll_answer`).
And the tally of these decisions is a list of rules that merge (`Tally.merges_recordAll`), so that
putting them in place is substitution.
-/

namespace TagTemplate

open Run

/-! ### Substitution -/

/-- The content that the pieces unite to when each tag is replaced by its answer, or by nothing
where it has none, and the number of tags whose replacement is not their own text. It fails as the
first tag that fails. -/
def Piece.substitute (d : Delimiters) (answer : Text → Except TagError (Option Text)) :
    List Piece → Except TagError (Text × ℕ)
  | [] => return ([], 0)
  | plain t :: pieces => do
    let (rest, count) ← substitute d answer pieces
    return (t ++ rest, count)
  | tag inner :: pieces => do
    let output := (← answer inner).getD []
    let (rest, count) ← substitute d answer pieces
    return (output ++ rest, if output = d.wrap inner then count else count + 1)

/-- The answers, asked for one after the other. -/
def askAll (answer : Text → Except TagError (Option Text)) : List Text → Except TagError Unit
  | [] => return ()
  | inner :: inners => do
    let _ ← answer inner
    askAll answer inners

/-- What a tag is replaced by, if it has an answer. -/
def replacement (answer : Text → Except TagError (Option Text)) (inner : Text) : Text :=
  match answer inner with
  | .ok output => output.getD []
  | .error _ => []

/-- Substitution asks for all answers, and then puts them in place. -/
theorem Piece.substitute_eq (d : Delimiters) (answer : Text → Except TagError (Option Text))
    (pieces : List Piece) :
    substitute d answer pieces = (askAll answer (pieces.filterMap inner?)).map fun _ ↦
      (pieces.flatMap (filled (replacement answer)),
        (pieces.filterMap inner?).countP fun inner ↦ replacement answer inner ≠ d.wrap inner) := by
  induction pieces with
  | nil => rfl
  | cons piece pieces ih =>
    cases piece with
    | plain t =>
      rw [substitute, ih, filterMap_inner?_plain, List.flatMap_cons]
      cases askAll answer (pieces.filterMap inner?) <;> rfl
    | tag inner =>
      rw [substitute, ih, filterMap_inner?_tag, List.flatMap_cons, askAll]
      cases hanswer : answer inner with
      | error err => rfl
      | ok output =>
        cases askAll answer (pieces.filterMap inner?) with
        | error err => rfl
        | ok _ =>
          have houtput : output.getD [] = replacement answer inner := by rw [replacement, hanswer]
          change Except.ok (_, if output.getD [] = d.wrap inner then _ else _) = Except.ok _
          rw [houtput, List.countP_cons]
          by_cases hsame : replacement answer inner = d.wrap inner
          · simp [hsame, filled_tag]
          · simp [hsame, filled_tag]

/-- Asking fails as the first tag that fails. -/
theorem askAll_eq_error_iff {answer : Text → Except TagError (Option Text)} {inners : List Text}
    {err : TagError} :
    askAll answer inners = .error err ↔
      ∃ before inner after, inners = before ++ inner :: after ∧
        (∀ other ∈ before, ∃ output, answer other = .ok output) ∧ answer inner = .error err := by
  induction inners with
  | nil => simp [askAll, pure, Except.pure]
  | cons first inners ih =>
    have hstep : askAll answer (first :: inners) =
        answer first >>= fun _ ↦ askAll answer inners := rfl
    rw [hstep]
    cases hfirst : answer first with
    | error err' =>
      -- The first tag fails, and it is the first one to do so.
      change Except.error err' = _ ↔ _
      refine ⟨fun h ↦ ⟨[], first, inners, rfl, nofun, by cases h; exact hfirst⟩, ?_⟩
      rintro ⟨before, inner, after, heq, hbefore, herr⟩
      rcases before with - | ⟨other, before⟩
      · cases heq
        rw [hfirst] at herr
        cases herr
        rfl
      · cases heq
        obtain ⟨output, houtput⟩ := hbefore first List.mem_cons_self
        rw [hfirst] at houtput
        cases houtput
    | ok output =>
      -- The first tag has an answer, so that another one is the first to fail.
      change askAll answer inners = _ ↔ _
      rw [ih]
      constructor
      · rintro ⟨before, inner, after, rfl, hbefore, herr⟩
        exact ⟨first :: before, inner, after, rfl,
          List.forall_mem_cons.2 ⟨⟨output, hfirst⟩, hbefore⟩, herr⟩
      · rintro ⟨before, inner, after, heq, hbefore, herr⟩
        rcases before with - | ⟨other, before⟩
        · cases heq
          rw [hfirst] at herr
          cases herr
        · cases heq
          exact ⟨before, inner, after, rfl, (List.forall_mem_cons.1 hbefore).2, herr⟩

/-- **Substitution fails as the first tag that fails**, and only then. -/
theorem Piece.substitute_eq_error_iff {d : Delimiters}
    {answer : Text → Except TagError (Option Text)} {pieces : List Piece} {err : TagError} :
    substitute d answer pieces = .error err ↔
      ∃ before inner after, pieces.filterMap inner? = before ++ inner :: after ∧
        (∀ other ∈ before, ∃ output, answer other = .ok output) ∧ answer inner = .error err := by
  rw [substitute_eq, ← askAll_eq_error_iff]
  cases askAll answer (pieces.filterMap inner?) <;> simp [Except.map]

/-! ### The tally of a pass -/

namespace Tally

/-- The tally after the outputs of tags were recorded. -/
def recordAll (d : Delimiters) (output : Text → Text) (inners : List Text) (tally : Tally) :
    Tally :=
  inners.foldl (fun tally inner ↦ tally.record (d.wrap inner) (output inner)) tally

variable {d : Delimiters} {output : Text → Text} {inners : List Text}

/-- All outputs that differ from their tags are counted, each as often as it was noted. -/
theorem count_recordAll (tally : Tally) :
    (tally.recordAll d output inners).count =
      tally.count + inners.countP fun inner ↦ output inner ≠ d.wrap inner := by
  induction inners generalizing tally with
  | nil => rfl
  | cons inner inners ih =>
    rw [recordAll, List.foldl_cons, ← recordAll, ih, List.countP_cons]
    by_cases hsame : output inner = d.wrap inner
    · simp [record, hsame]
    · simp [record, hsame]
      omega

/-- Every entry is the output of a tag. -/
theorem exists_of_mem_recordAll {tally : Tally} {rule : Text.Rule}
    (h : rule ∈ (tally.recordAll d output inners).outputs.entries) :
    rule ∈ tally.outputs.entries ∨ ∃ inner ∈ inners, (d.wrap inner, output inner) = rule := by
  induction inners generalizing tally with
  | nil => exact .inl h
  | cons inner inners ih =>
    rcases ih h with h | ⟨other, hmem, hrule⟩
    · rcases Properties.mem_put h with rfl | h
      · exact .inr ⟨inner, List.mem_cons_self, rfl⟩
      · exact .inl h
    · exact .inr ⟨other, List.mem_cons_of_mem _ hmem, hrule⟩

/-- Every tag has its output among the entries. -/
theorem get?_recordAll {tally : Tally} {inner : Text}
    (h : inner ∈ inners ∨ tally.outputs.get? (d.wrap inner) = some (output inner)) :
    (tally.recordAll d output inners).outputs.get? (d.wrap inner) = some (output inner) := by
  induction inners generalizing tally with
  | nil => exact h.resolve_left List.not_mem_nil
  | cons first inners ih =>
    refine ih ?_
    change _ ∨ (tally.outputs.insert (d.wrap first) (output first)).get? (d.wrap inner) = _
    rw [Properties.get?_insert]
    by_cases hfirst : first = inner
    · exact .inr (by rw [hfirst, if_pos rfl])
    · rw [if_neg fun heq ↦ hfirst (d.wrap_injective heq)]
      exact h.imp_left fun hmem ↦ (List.mem_cons.1 hmem).resolve_left (Ne.symm hfirst)

/-- The entries of the tally of some tags are rules that merge. -/
theorem merges_recordAll (h : ∀ inner ∈ inners, d.Reads inner) :
    d.Merges output (empty.recordAll d output inners).outputs.entries := by
  intro rule hmem
  rcases exists_of_mem_recordAll hmem with hempty | ⟨inner, hinner, hrule⟩
  · cases hempty
  · exact ⟨inner, h inner hinner, hrule⟩

/-- The rules of all tags are among the entries. -/
theorem mem_recordAll {tally : Tally} {inner : Text} (h : inner ∈ inners) :
    (d.wrap inner, output inner) ∈ (tally.recordAll d output inners).outputs.entries := by
  have hget : (tally.recordAll d output inners).outputs.get? (d.wrap inner) = some (output inner) :=
    get?_recordAll (.inl h)
  exact Dict.mem_of_lookup hget

end Tally

/-! ### What a pass answers -/

namespace Search

variable {search : Search} {ctx : Context} {latching : Bool} {allowed : TagError → Prop}
  {resolve : Text → Run (Option Text)} {answer : Text → Except TagError (Option Text)}

/-- The decision about a tag is its answer, where a tag that is dropped answers nothing. -/
theorem judge_answer (hctx : ctx.removeUnprocessed = true) {inner : Text} {s : State}
    (htriage : search.triage ctx s.uncacheableStarted inner = .resolve ∧
        (resolve inner s).1 = answer inner ∨
      search.triage ctx s.uncacheableStarted inner = .drop ∧ answer inner = .ok (some []))
    (tally : Tally) :
    (search.judge ctx inner (resolve inner) tally s).1 = (answer inner).map fun output ↦
      tally.record (search.delimiters.wrap inner) (output.getD []) := by
  rw [judge_apply]
  rcases htriage with ⟨htriage, hanswer⟩ | ⟨htriage, hanswer⟩
  · rw [htriage, carryOut, map_apply, ← hanswer]
    rcases (resolve inner s).1 with err | _ | output
    · rfl
    · simp [Except.map, noted, hctx]
    · rfl
  · rw [htriage, carryOut, hanswer]
    rfl

/-- **The decisions about tags are the answers of the tags**, in their order: which tags were
resolved before makes no difference to any of them. -/
theorem judgeAll_answer (hresolve : ∀ inner, Scoped latching allowed (resolve inner)) {s : State}
    (hs : s.Latched latching) {inners : List Text}
    (hjudge : ∀ inner ∈ inners, ∀ (tally : Tally) (s' : State), s.Similar s' →
      (search.judge ctx inner (resolve inner) tally s').1 = (answer inner).map fun output ↦
        tally.record (search.delimiters.wrap inner) (output.getD []))
    (tally : Tally) {s' : State} (hsim : s.Similar s') :
    (search.judgeAll ctx inners (fun inner _ ↦ resolve inner) tally s').1 =
      (askAll answer inners).map fun _ ↦
        tally.recordAll search.delimiters (replacement answer) inners := by
  induction inners generalizing tally s' with
  | nil => rfl
  | cons inner inners ih =>
    have hfirst := hjudge inner List.mem_cons_self tally s' hsim
    -- The rest of the tags is decided in a state that is similar again.
    have hquiet : Quiet latching (search.judge ctx inner (resolve inner) tally) :=
      (scoped_judge (hresolve inner) tally).quiet
    have hstep := hquiet.similar (hsim.latched hs)
    rw [judgeAll, askAll, bind_apply]
    rcases hrun : search.judge ctx inner (resolve inner) tally s' with ⟨result, s''⟩
    rw [hrun] at hfirst hstep
    dsimp only at hfirst
    rw [hfirst]
    cases hanswer : answer inner with
    | error err => rfl
    | ok output =>
      have houtput : output.getD [] = replacement answer inner := by rw [replacement, hanswer]
      have hrest := ih (fun inner h ↦ hjudge inner (List.mem_cons_of_mem _ h))
        (tally.record (search.delimiters.wrap inner) (output.getD [])) (hsim.trans hstep)
      rw [houtput] at hrest
      rw [Except.map]
      dsimp only
      rw [houtput]
      exact hrest

/-- A pass answers the content with the tally of its tags in place. -/
theorem pass_answer (content : Text) (s : State) :
    (search.pass ctx content (fun inner _ ↦ resolve inner) s).1 =
      (search.judgeAll ctx (search.delimiters.tags content) (fun inner _ ↦ resolve inner)
        .empty s).1.map fun tally ↦ (content.replaceAll tally.outputs.entries, tally.count) := by
  rw [pass, bind_pure_comp, map_apply]

/-- Where uncacheable tags are resolved and no tags are chosen, all tags but comments are
resolved. -/
theorem triage_of_all (hctx : ctx.processUncacheable = true) (htokens : search.tokens = [])
    (hself : search.selfTag = []) (hd : search.delimiters.Separate) (started : Bool)
    (inner : Text) :
    search.triage ctx started inner = if inner.head? = some '-' then .drop else .resolve := by
  have hwrap : search.delimiters.wrap inner ≠ search.selfTag := by
    simp [hself, Delimiters.wrap, hd.opening_ne_nil]
  simp [triage, hctx, htokens, hwrap]

/-- **A pass is substitution**, if the decision about each tag is the answer of the tag. -/
theorem pass_eq_substitute (hd : search.delimiters.Separate)
    (hresolve : ∀ inner, Scoped latching allowed (resolve inner)) {s : State}
    (hs : s.Latched latching) {content : Text}
    (hjudge : ∀ inner (tally : Tally) (s' : State), s.Similar s' →
      (search.judge ctx inner (resolve inner) tally s').1 = (answer inner).map fun output ↦
        tally.record (search.delimiters.wrap inner) (output.getD [])) :
    (search.pass ctx content (fun inner _ ↦ resolve inner) s).1 =
      Piece.substitute search.delimiters answer (search.delimiters.scan content) := by
  let inners := search.delimiters.tags content
  let tally := Tally.empty.recordAll search.delimiters (replacement answer) inners
  have hdecided : (search.judgeAll ctx inners (fun inner _ ↦ resolve inner) .empty s).1 =
      (askAll answer inners).map fun _ ↦ tally :=
    judgeAll_answer hresolve hs (fun inner _ ↦ hjudge inner) .empty ⟨rfl, rfl⟩
  have hmerged : content.replaceAll tally.outputs.entries =
      (search.delimiters.scan content).flatMap (Piece.filled (replacement answer)) :=
    hd.replaceAll_scan (Tally.merges_recordAll fun _ ↦ hd.reads_of_mem_tags)
      fun _ ↦ Tally.mem_recordAll
  rw [pass_answer, hdecided, Piece.substitute_eq]
  change _ = (askAll answer inners).map _
  cases askAll answer inners with
  | error err => rfl
  | ok _ =>
    simp only [Except.map]
    rw [hmerged, Tally.count_recordAll]
    simp [inners, Tally.empty, Delimiters.tags]

end Search

/-! ### What callers get -/

namespace Engine

/-- Whether its context was announced before makes no difference to what a tag answers. -/
theorem resolve_announce (e : Engine) (d : Delimiters) (ctx : Context) (outer inner : Text)
    (s : State) :
    (e.resolve d ctx outer inner (ctx.announce s).2).1 = (e.resolve d ctx outer inner s).1 := by
  rw [resolve_eq_resolveOnce, resolveOnce]
  split
  · rfl
  · rw [bind_apply, bind_apply, Context.announce_of_latched (ctx.latched_announce s),
      announce_apply]

/-- What a tag answers after its siblings is what it answers alone, in the state before the call. -/
theorem resolveInner_answer (e : Engine) (d : Delimiters) {ctx : Context} {s s' : State}
    (hsim : (ctx.announce s).2.Similar s') (inner : Text) :
    (e.resolveInner d ctx inner s').1 = (e.resolveInner d ctx inner s).1 := by
  have hquiet : Quiet ctx.processUncacheable (e.resolveInner d ctx inner) :=
    (scoped_resolve e.raisesOnly_true d ctx _ inner).quiet
  exact (hquiet.answer_eq (ctx.latched_announce s) hsim).trans (e.resolve_announce d ctx _ inner s)

/-- With delimiters that cannot overlap, a single pass that resolves everything and removes what has
no value is substitution. -/
theorem processTags_of_separate (e : Engine) (hd : e.options.delimiters.Separate) (content : Text)
    (s : State) :
    (e.processTags { processUncacheable := true, removeUnprocessed := true, maxDepth := 1 }
        content s).1 =
      Piece.substitute e.options.delimiters
        (fun inner ↦
          (e.processTag (e.context true true 1) (e.options.delimiters.wrap inner) inner s).1)
        (e.options.delimiters.scan content) := by
  let request : Request :=
    { processUncacheable := true, removeUnprocessed := true, maxDepth := 1 }
  let search := e.search request
  let ctx := e.context true true 1
  let run := e.resolveInner e.options.delimiters ctx
  let answer (inner : Text) := (run inner s).1
  have hscoped (inner : Text) : Scoped true (fun _ ↦ True) (run inner) :=
    scoped_resolve e.raisesOnly_true _ ctx _ inner
  have hjudge (inner : Text) (tally : Tally) (s' : State) (hsim : (ctx.announce s).2.Similar s') :
      (search.judge ctx inner (run inner) tally s').1 = (answer inner).map fun output ↦
        tally.record (search.delimiters.wrap inner) (output.getD []) := by
    refine Search.judge_answer rfl ?_ tally
    rw [Search.triage_of_all rfl rfl rfl hd]
    by_cases hcomment : inner.head? = some '-'
    · -- A comment is dropped before it is resolved, and resolves to nothing.
      refine .inr ⟨if_pos hcomment, ?_⟩
      change (e.resolve _ ctx _ inner s).1 = _
      rw [resolve, if_pos hcomment]
      rfl
    · exact .inl ⟨if_neg hcomment, e.resolveInner_answer _ hsim inner⟩
  have hpass : (search.pass ctx content (fun inner _ ↦ run inner) (ctx.announce s).2).1 =
      Piece.substitute search.delimiters answer (search.delimiters.scan content) :=
    Search.pass_eq_substitute hd hscoped (ctx.latched_announce s) hjudge
  exact (congrArg Prod.fst (processTags_apply e request 1 content s)).trans hpass

/-- **Merging by text is substitution by position.** For an engine with the default delimiters, a
single pass that resolves everything and removes what has no value answers the content in which the
text between tags is unchanged and each outermost tag is replaced, where it stands, by what
resolving it alone in the same state and context answers, or by nothing; and it counts the tags that
are replaced by another text than their own. It fails exactly when one of these tags fails, as the
first one that does. -/
theorem processTags_eq_substitute (e : Engine) (hd : e.options.delimiters = .brackets)
    (content : Text) (s : State) :
    let request : Request :=
      { processUncacheable := true, removeUnprocessed := true, maxDepth := 1 }
    let answer (inner : Text) :=
      (e.processTag (e.context true true 1) (Delimiters.brackets.wrap inner) inner s).1
    (e.processTags request content s).1 =
        Piece.substitute .brackets answer (Delimiters.brackets.scan content) ∧
      ∀ err, (e.processTags request content s).1 = .error err ↔
        ∃ before inner after, Delimiters.brackets.tags content = before ++ inner :: after ∧
          (∀ other ∈ before, ∃ output, answer other = .ok output) ∧ answer inner = .error err := by
  intro request answer
  have hsubstitute : (e.processTags request content s).1 =
      Piece.substitute .brackets answer (Delimiters.brackets.scan content) := by
    have hgeneral := e.processTags_of_separate (hd ▸ Delimiters.separate_brackets) content s
    rw [hd] at hgeneral
    exact hgeneral
  refine ⟨hsubstitute, fun err ↦ ?_⟩
  rw [hsubstitute]
  exact Piece.substitute_eq_error_iff

/-- An engine with a chunk that greets. -/
def greeting : Engine where
  options := {}
  chunks name :=
    if name = ['a'] then .ok "Hello [[+name]]".toList
    else ChunkSource.missing name

/-- The first tag stands in front of closings that belong to nothing, the second one is the first
one again, and the third one is never balanced and holds it. -/
theorem greeting_substitutes :
    let content := "[[$a]]]] [[$a]] [[[[$a]]".toList
    let request : Request :=
      { processUncacheable := true, removeUnprocessed := true, maxDepth := 1 }
    let answer (inner : Text) := (greeting.processTag (greeting.context true true 1)
      (Delimiters.brackets.wrap inner) inner { store := .empty }).1
    greeting.options.delimiters = .brackets ∧
      (greeting.processTags request content { store := .empty }).1 =
        Piece.substitute .brackets answer (Delimiters.brackets.scan content) ∧
      ∀ err, (greeting.processTags request content { store := .empty }).1 = .error err ↔
        ∃ before inner after, Delimiters.brackets.tags content = before ++ inner :: after ∧
          (∀ other ∈ before, ∃ output, answer other = .ok output) ∧ answer inner = .error err :=
  ⟨rfl, processTags_eq_substitute greeting rfl _ _⟩

end Engine

end TagTemplate
