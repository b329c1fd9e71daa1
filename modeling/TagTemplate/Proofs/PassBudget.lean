import TagTemplate.Proofs.Quiet
import TagTemplate.Proofs.Replacement

/-!
# Pass budgets

Content is resolved in passes, as many as the budget allows, and the passes stop early when one of
them changes nothing. Budgets add up: passes over the content with one budget, followed by passes
over what came of it with another, are passes with the sum of the budgets (`passes_add`), and so for
what callers ask for.

Two facts carry this. A pass that counts no tag has recorded each tag as its own output, so it
leaves the content as it was (`eq_of_pass_zero`); and since passes are quiet, the same pass made
again comes to the same end (`passes_of_pass_zero`). So an early stop is a stop at a fixed point,
and whether the content changed can be read off the count alone (`processTags_count_zero`).
The budget itself reaches nothing but the loop: tags in arguments are resolved in one pass, and the
content of a tag has the budget of the options (`resolve_maxDepth`).
-/

namespace TagTemplate

open Run

/-! ### A pass that counts nothing changes nothing -/

/-- What is listed after an entry was put in is that entry, or was listed before. -/
theorem Properties.mem_put {key value : Text} {entries : List (Text × Text)} {entry : Text × Text}
    (h : entry ∈ put key value entries) : entry = (key, value) ∨ entry ∈ entries := by
  induction entries with
  | nil => simpa [put] using h
  | cons first entries ih =>
    rw [put] at h
    split at h
    · exact (List.mem_cons.1 h).imp_right (List.mem_cons_of_mem _)
    · rcases List.mem_cons.1 h with rfl | h
      · exact .inr List.mem_cons_self
      · exact (ih h).imp_right (List.mem_cons_of_mem _)

/-- A tally that counts no tag has every tag as its own output. -/
def Tally.Inert (tally : Tally) : Prop :=
  tally.count = 0 → ∀ entry ∈ tally.outputs.entries, entry.2 = entry.1

theorem Tally.inert_empty : Tally.empty.Inert := fun _ _ h ↦ nomatch h

theorem Tally.Inert.record {tally : Tally} (h : tally.Inert) (outer output : Text) :
    (tally.record outer output).Inert := by
  intro hcount entry hentry
  simp only [Tally.record] at hcount hentry
  split at hcount
  · rename_i hsame
    rcases Properties.mem_put hentry with rfl | hmem
    · exact hsame
    · exact h hcount entry hmem
  · omega

/-- To note an output never takes anything from the count. -/
theorem Tally.count_le_record (tally : Tally) (outer output : Text) :
    tally.count ≤ (tally.record outer output).count := by
  rw [Tally.record]
  dsimp only
  split
  · exact Nat.le_refl _
  · exact Nat.le_succ _

/-- A tag of the content that is dropped counts. -/
theorem Tally.count_record_nil {d : Delimiters} {content inner : Text}
    (h : inner ∈ d.tags content) (tally : Tally) :
    (tally.record (d.wrap inner) []).count = tally.count + 1 := by
  refine if_neg fun hnil ↦ ?_
  have hopening : d.opening = [] :=
    (List.append_eq_nil_iff.1 (List.append_eq_nil_iff.1 hnil.symm).1).1
  rw [Delimiters.tags, Delimiters.scan, dif_neg (by simp [Delimiters.usable, hopening])] at h
  cases h

namespace Search

variable {search : Search} {ctx : Context}

/-- What holds of a tally and is kept by recording holds of the tally after one decision. -/
theorem judge_induction {P : Tally → Prop}
    (hrecord : ∀ tally outer output, P tally → P (tally.record outer output)) {inner : Text}
    {resolve : Run (Option Text)} {tally tally' : Tally} {s s' : State} (h : P tally)
    (hjudge : search.judge ctx inner resolve tally s = (.ok tally', s')) : P tally' := by
  rw [judge_apply] at hjudge
  cases htriage : search.triage ctx s.uncacheableStarted inner with
  | drop =>
    rw [htriage, carryOut] at hjudge
    cases hjudge
    exact hrecord _ _ _ h
  | leave =>
    rw [htriage, carryOut] at hjudge
    cases hjudge
    exact h
  | resolve =>
    rw [htriage, carryOut, map_apply] at hjudge
    rcases hrun : resolve s with ⟨err | output, s₁⟩ <;> rw [hrun] at hjudge <;> cases hjudge
    cases output with
    | some output => exact hrecord _ _ _ h
    | none =>
      rw [noted]
      split
      · exact hrecord _ _ _ h
      · exact h

/-- What holds of a tally and is kept by recording holds of the tally after all decisions. -/
theorem judgeAll_induction {P : Tally → Prop}
    (hrecord : ∀ tally outer output, P tally → P (tally.record outer output)) {inners : List Text}
    {resolve : (inner : Text) → inner ∈ inners → Run (Option Text)} {tally tally' : Tally}
    {s s' : State} (h : P tally)
    (hjudge : search.judgeAll ctx inners resolve tally s = (.ok tally', s')) : P tally' := by
  induction inners generalizing tally s with
  | nil => cases hjudge; exact h
  | cons inner inners ih =>
    rw [judgeAll, bind_apply] at hjudge
    rcases hfirst : search.judge ctx inner (resolve inner List.mem_cons_self) tally s with
      ⟨err | tally₁, s₁⟩ <;> rw [hfirst] at hjudge
    · cases hjudge
    · exact ih (judge_induction hrecord h hfirst) hjudge

/-- One tag takes nothing from the count. -/
theorem count_le_of_judge {inner : Text} {resolve : Run (Option Text)} {tally tally' : Tally}
    {s s' : State} (h : search.judge ctx inner resolve tally s = (.ok tally', s')) :
    tally.count ≤ tally'.count :=
  judge_induction (P := fun later ↦ tally.count ≤ later.count)
    (fun later outer output hle ↦ Nat.le_trans hle (later.count_le_record outer output))
    (Nat.le_refl _) h

/-- The tags of a pass take nothing from the count. -/
theorem count_le_of_judgeAll {inners : List Text}
    {resolve : (inner : Text) → inner ∈ inners → Run (Option Text)} {tally tally' : Tally}
    {s s' : State} (h : search.judgeAll ctx inners resolve tally s = (.ok tally', s')) :
    tally.count ≤ tally'.count :=
  judgeAll_induction (P := fun later ↦ tally.count ≤ later.count)
    (fun later outer output hle ↦ Nat.le_trans hle (later.count_le_record outer output))
    (Nat.le_refl _) h

/-- A comment is counted. -/
theorem count_lt_of_comment {content : Text} {inners : List Text}
    (hinners : ∀ inner ∈ inners, inner ∈ search.delimiters.tags content)
    {resolve : (inner : Text) → inner ∈ inners → Run (Option Text)} {tally tally' : Tally}
    {s s' : State} (h : search.judgeAll ctx inners resolve tally s = (.ok tally', s')) {inner : Text}
    (hmem : inner ∈ inners) (hcomment : inner.head? = some '-') : tally.count < tally'.count := by
  induction inners generalizing tally s with
  | nil => exact absurd hmem List.not_mem_nil
  | cons first inners ih =>
    rw [List.forall_mem_cons] at hinners
    rw [judgeAll, bind_apply] at h
    rcases hfirst : search.judge ctx first (resolve first List.mem_cons_self) tally s with
      ⟨err | tally₁, s₁⟩ <;> rw [hfirst] at h
    · cases h
    · rcases List.mem_cons.1 hmem with rfl | hmem
      · have hdrop : search.triage ctx s.uncacheableStarted inner = .drop := if_pos hcomment
        rw [judge_apply, hdrop, carryOut] at hfirst
        cases hfirst
        rw [← Nat.succ_le_iff, Nat.succ_eq_add_one, ← Tally.count_record_nil hinners.1]
        exact count_le_of_judgeAll h
      · exact Nat.lt_of_le_of_lt (count_le_of_judge hfirst) (ih hinners.2 h hmem)

/-- What a pass answers, from the tally of its tags. -/
theorem exists_tally_of_pass {content content' : Text} {count : ℕ} {s s' : State}
    {resolve : (inner : Text) → inner ∈ search.delimiters.tags content → Run (Option Text)}
    (h : search.pass ctx content resolve s = (.ok (content', count), s')) :
    ∃ tally,
      search.judgeAll ctx (search.delimiters.tags content) resolve .empty s = (.ok tally, s') ∧
      content' = content.replaceAll tally.outputs.entries ∧ count = tally.count := by
  rw [pass, bind_apply] at h
  rcases hall : search.judgeAll ctx (search.delimiters.tags content) resolve .empty s with
    ⟨err | tally, s₁⟩ <;> rw [hall] at h <;> cases h
  exact ⟨tally, rfl, rfl, rfl⟩

/-- **A pass that counts no tag leaves the content as it was.** -/
theorem eq_of_pass_zero {content content' : Text} {s s' : State}
    {resolve : (inner : Text) → inner ∈ search.delimiters.tags content → Run (Option Text)}
    (h : search.pass ctx content resolve s = (.ok (content', 0), s')) : content' = content := by
  obtain ⟨tally, hall, rfl, hcount⟩ := exists_tally_of_pass h
  have hinert : tally.Inert :=
    judgeAll_induction (fun _ _ _ h ↦ h.record _ _) Tally.inert_empty hall
  exact Text.replaceAll_eq_self (hinert hcount.symm) content

/-- Passes that count no tag are a single one: what a first pass counts is not taken back by the
ones behind it. -/
theorem pass_of_passes_zero {resolve : Text → Run (Option Text)} {further : ℕ}
    {content content' : Text} {s s' : State}
    (h : search.passes ctx resolve further content s = (.ok (content', 0), s')) :
    search.pass ctx content (fun inner _ ↦ resolve inner) s = (.ok (content', 0), s') := by
  cases further with
  | zero => exact h
  | succ further =>
    rw [passes, bind_apply] at h
    rcases hpass : search.pass ctx content (fun inner _ ↦ resolve inner) s with
      ⟨err | ⟨first, m⟩, s₁⟩ <;> rw [hpass] at h
    · cases h
    · dsimp only at h
      by_cases hm : m = 0
      · subst hm
        rw [if_pos rfl] at h
        exact h
      · rw [if_neg hm, bind_apply] at h
        rcases hrest : search.passes ctx resolve further first s₁ with ⟨err | ⟨second, n⟩, s₂⟩ <;>
          rw [hrest] at h
        · cases h
        · have hcount : m + n = 0 := congrArg Prod.snd (Except.ok.inj (congrArg Prod.fst h))
          omega

/-! ### An early stop is a stop at a fixed point -/

variable {latching : Bool} {allowed : TagError → Prop} {resolve : Text → Run (Option Text)}

/-- A pass is quiet if the resolution of each tag keeps to its scope. -/
theorem quiet_pass (search : Search) (ctx : Context)
    (hresolve : ∀ inner, Scoped latching allowed (resolve inner)) (content : Text) :
    Quiet latching (search.pass ctx content fun inner _ ↦ resolve inner) :=
  (scoped_pass fun inner _ ↦ hresolve inner).quiet

/-- After a pass that counts nothing, further passes change neither the content nor the state. -/
theorem passes_of_pass_zero (hresolve : ∀ inner, Scoped latching allowed (resolve inner))
    {content content' : Text} {s s' : State} (hs : s.Latched latching)
    (h : search.pass ctx content (fun inner _ ↦ resolve inner) s = (.ok (content', 0), s'))
    (further : ℕ) : search.passes ctx resolve further content' s' = (.ok (content', 0), s') := by
  obtain rfl := eq_of_pass_zero h
  have hagain := (quiet_pass search ctx hresolve content').again hs
  rw [h] at hagain
  cases further with
  | zero => exact hagain
  | succ further =>
    rw [passes, bind_apply, hagain]
    rfl

/-- **Budgets of passes add up.** -/
theorem passes_add (hresolve : ∀ inner, Scoped latching allowed (resolve inner)) (i j : ℕ)
    (content : Text) {s : State} (hs : s.Latched latching) :
    search.passes ctx resolve (i + 1 + j) content s =
      (do
        let (first, m) ← search.passes ctx resolve i content
        let (second, n) ← search.passes ctx resolve j first
        return (second, m + n)) s := by
  induction i generalizing content s with
  | zero =>
    rw [show 0 + 1 + j = j + 1 by omega, passes, passes, bind_apply, bind_apply]
    rcases hpass : search.pass ctx content (fun inner _ ↦ resolve inner) s with
      ⟨err | ⟨first, m⟩, s₁⟩
    · rfl
    · dsimp only
      by_cases hm : m = 0
      · -- The sum of the budgets stops here, and the second budget is spent on nothing.
        subst hm
        rw [if_pos rfl, bind_apply, passes_of_pass_zero hresolve hs hpass]
        rfl
      · rw [if_neg hm]
  | succ i ih =>
    rw [show i + 1 + 1 + j = i + 1 + j + 1 by omega, passes, passes, bind_assoc, bind_apply,
      bind_apply]
    rcases hpass : search.pass ctx content (fun inner _ ↦ resolve inner) s with
      ⟨err | ⟨first, m⟩, s₁⟩
    · rfl
    · dsimp only
      by_cases hm : m = 0
      · subst hm
        rw [if_pos rfl, if_pos rfl, pure_bind, bind_apply, passes_of_pass_zero hresolve hs hpass]
        rfl
      · have hs₁ := (quiet_pass search ctx hresolve content).latched hs hpass
        rw [if_neg hm, if_neg hm, bind_apply, ih first hs₁, bind_assoc, bind_apply, bind_apply]
        rcases search.passes ctx resolve i first s₁ with ⟨err | ⟨second, n⟩, s₂⟩
        · rfl
        · simp only [bind_apply, pure_apply]
          rcases search.passes ctx resolve j second s₂ with ⟨err | ⟨third, k⟩, s₃⟩
          · rfl
          · simp [Nat.add_assoc]

/-- How many passes `Search.passes` makes. -/
def passesMade (search : Search) (ctx : Context) (resolve : Text → Run (Option Text)) :
    (further : ℕ) → Text → State → ℕ
  | 0, _, _ => 1
  | further + 1, content, s =>
    match search.pass ctx content (fun inner _ ↦ resolve inner) s with
    | (.ok (content, count), s) =>
      if count = 0 then 1 else passesMade search ctx resolve further content s + 1
    | (.error _, _) => 1

/-- A pass that counts nothing is the last one. -/
theorem passesMade_of_pass_zero {content content' : Text} {s s' : State}
    (h : search.pass ctx content (fun inner _ ↦ resolve inner) s = (.ok (content', 0), s'))
    (further : ℕ) : search.passesMade ctx resolve further content s = 1 := by
  cases further with
  | zero => rfl
  | succ further =>
    rw [passesMade, h]
    rfl

/-- **What stopped early has reached a fixed point.** -/
theorem passes_of_passesMade_le (hresolve : ∀ inner, Scoped latching allowed (resolve inner))
    {further : ℕ} {content content' : Text} {count : ℕ} {s s' : State} (hs : s.Latched latching)
    (h : search.passes ctx resolve further content s = (.ok (content', count), s'))
    (hearly : search.passesMade ctx resolve further content s ≤ further) (again : ℕ) :
    search.passes ctx resolve again content' s' = (.ok (content', 0), s') := by
  induction further generalizing content count s with
  | zero => rw [passesMade] at hearly; omega
  | succ further ih =>
    rw [passes, bind_apply] at h
    rw [passesMade] at hearly
    rcases hpass : search.pass ctx content (fun inner _ ↦ resolve inner) s with
      ⟨err | ⟨first, m⟩, s₁⟩
    · rw [hpass] at h
      cases h
    · rw [hpass] at h hearly
      dsimp only at h hearly
      by_cases hm : m = 0
      · -- The first pass counted nothing, so that the next one finds all settled.
        subst hm
        rw [if_pos rfl] at h
        cases h
        exact passes_of_pass_zero hresolve hs hpass again
      · -- Otherwise the rest of the passes ends early as well.
        rw [if_neg hm, bind_apply] at h
        rw [if_neg hm] at hearly
        have hs₁ := (quiet_pass search ctx hresolve content).latched hs hpass
        rcases hrest : search.passes ctx resolve further first s₁ with ⟨err | ⟨second, n⟩, s₂⟩
        · rw [hrest] at h
          cases h
        · rw [hrest] at h
          cases h
          exact ih hs₁ hrest (by omega)

/-! ### The budget reaches nothing but the loop -/

/-- The pass budget of a context plays no part in what becomes of a tag. -/
theorem judgeAll_maxDepth (search : Search) (ctx : Context) (budget : ℕ) {inners : List Text}
    (resolve : (inner : Text) → inner ∈ inners → Run (Option Text)) (tally : Tally) :
    search.judgeAll { ctx with maxDepth := budget } inners resolve tally =
      search.judgeAll ctx inners resolve tally := by
  induction inners generalizing tally with
  | nil => rfl
  | cons inner inners ih =>
    rw [judgeAll, judgeAll]
    simp only [ih]
    rfl

/-- Nor does it in a pass. -/
theorem pass_maxDepth (search : Search) (ctx : Context) (budget : ℕ) {content : Text}
    (resolve : (inner : Text) → inner ∈ search.delimiters.tags content → Run (Option Text)) :
    search.pass { ctx with maxDepth := budget } content resolve =
      search.pass ctx content resolve := by
  rw [pass, pass, judgeAll_maxDepth]

/-- Nor does it in a number of passes that is given. -/
theorem passes_maxDepth (search : Search) (ctx : Context) (budget : ℕ)
    (resolve : Text → Run (Option Text)) (further : ℕ) (content : Text) :
    search.passes { ctx with maxDepth := budget } resolve further content =
      search.passes ctx resolve further content := by
  induction further generalizing content with
  | zero => rw [passes, passes, pass_maxDepth]
  | succ further ih =>
    rw [passes, passes, pass_maxDepth]
    simp only [ih]

end Search

/-- To enter a tag carries the pass budget along, unread. -/
theorem Context.enter_maxDepth (ctx : Context) (budget : ℕ) (tag : Text) :
    Context.enter { ctx with maxDepth := budget } tag =
      (ctx.enter tag).map fun inner : Context ↦ { inner with maxDepth := budget } := by
  unfold Context.enter
  by_cases hmem : tag ∈ ctx.resolving
  · rw [dif_pos hmem, dif_pos hmem]
    rfl
  · rw [dif_neg hmem, dif_neg hmem]
    by_cases hdeep : 0 < ctx.maxNesting ∧ ctx.maxNesting ≤ ctx.resolving.length
    · rw [if_pos hdeep, if_pos hdeep]
      rfl
    · rw [if_neg hdeep, if_neg hdeep]
      rfl

namespace Engine

variable {e : Engine}

/-- The content of a tag has the pass budget of the options, whatever that of the context is. -/
theorem enterContent_maxDepth (ctx : Context) (budget : ℕ) (tag : Text) :
    e.enterContent { ctx with maxDepth := budget } tag = e.enterContent ctx tag := by
  rw [enterContent_eq, enterContent_eq]
  -- The budget is overwritten on entering, after a step that does not look at it.
  change (Context.enter { ({ ctx with maxNesting := e.nestingLimit ctx } : Context) with
    maxDepth := budget } tag).bind _ = _
  rw [Context.enter_maxDepth]
  cases Context.enter { ctx with maxNesting := e.nestingLimit ctx } tag with
  | error err => rfl
  | ok inner => rfl

/-- **The pass budget is not passed on** to the tags that are resolved. -/
theorem resolve_maxDepth (e : Engine) (d : Delimiters) (ctx : Context) (budget : ℕ)
    (outer inner : Text) :
    e.resolve d { ctx with maxDepth := budget } outer inner = e.resolve d ctx outer inner := by
  have houtput (tag : Tag) (latching : Bool) (explicit : Properties)
      (body : Context → Text → Run Text) :
      tag.outputOf e { ctx with processUncacheable := latching, maxDepth := budget } explicit
          (fun below _ ↦ body below) =
        tag.outputOf e { ctx with processUncacheable := latching } explicit
          (fun below _ ↦ body below) :=
    Tag.outputOf_congr explicit body rfl rfl
      (enterContent_maxDepth { ctx with processUncacheable := latching } budget tag.text)
  rw [resolve_eq_resolveOnce, resolve_eq_resolveOnce]
  unfold resolveOnce
  simp only [houtput]
  rfl

/-! ### What callers ask for -/

/-- The context in which the tags of a request are resolved. -/
def contextOf (e : Engine) (request : Request) : Context :=
  e.context request.processUncacheable request.removeUnprocessed request.maxDepth

/-- The calls that differ in their budget only are the same loop with different budgets, from the
state in which the context was announced. -/
theorem processTags_apply (e : Engine) (request : Request) (budget : ℕ) (content : Text)
    (s : State) :
    e.processTags { request with maxDepth := budget } content s =
      (e.search request).passes (e.contextOf request)
        (e.resolveInner (e.search request).delimiters (e.contextOf request)) (budget - 1) content
        ((e.contextOf request).announce s).2 := by
  let search := e.search request
  let ctx := e.contextOf request
  have hresolve : e.resolveInner search.delimiters { ctx with maxDepth := budget } =
      e.resolveInner search.delimiters ctx :=
    funext fun inner ↦ e.resolve_maxDepth search.delimiters ctx budget _ inner
  change (do
    ctx.announce
    search.passes { ctx with maxDepth := budget }
      (e.resolveInner search.delimiters { ctx with maxDepth := budget }) (budget - 1) content) s = _
  rw [hresolve, bind_apply, announce_apply, Search.passes_maxDepth]

/-- How many passes `Engine.processTags` makes. -/
def passesMade (e : Engine) (request : Request) (content : Text) (s : State) : ℕ :=
  (e.search request).passesMade (e.contextOf request)
    (e.resolveInner (e.search request).delimiters (e.contextOf request)) (request.maxDepth - 1)
    content ((e.contextOf request).announce s).2

/-- **Pass budgets add up**: a call with the budget `a + b` comes to the same text, the same count,
the same state and the same error as a call with the budget `a` and a call with the budget `b` on
the text that the first one answered. And a call that stopped before its budget was spent can be
repeated: it answers the same text, counts nothing, and leaves the state as it is. -/
theorem processTags_add (e : Engine) (request : Request) (content : Text) {a b : ℕ} (ha : 1 ≤ a)
    (hb : 1 ≤ b) :
    (e.processTags { request with maxDepth := a + b } content = do
      let (first, m) ← e.processTags { request with maxDepth := a } content
      let (second, n) ← e.processTags { request with maxDepth := b } first
      return (second, m + n)) ∧
    ∀ (s s' : State) (first : Text) (m : ℕ),
      e.processTags request content s = (.ok (first, m), s') →
      e.passesMade request content s < request.maxDepth →
      e.processTags request first s' = (.ok (first, 0), s') := by
  have hresolve (inner : Text) : Scoped (e.contextOf request).processUncacheable (fun _ ↦ True)
      (e.resolveInner (e.search request).delimiters (e.contextOf request) inner) :=
    scoped_resolve e.raisesOnly_true _ _ _ inner
  have hquiet (further : ℕ) (content : Text) : Quiet (e.contextOf request).processUncacheable
      ((e.search request).passes (e.contextOf request) (e.resolveInner (e.search request).delimiters
        (e.contextOf request)) further content) :=
    (Search.scoped_passes hresolve further content).quiet
  refine ⟨?_, fun s s' first m h hearly ↦ ?_⟩
  · funext s
    have hs := (e.contextOf request).latched_announce s
    have hsum : a + b - 1 = a - 1 + 1 + (b - 1) := by omega
    rw [processTags_apply, hsum, Search.passes_add hresolve _ _ _ hs, bind_apply, bind_apply,
      processTags_apply]
    rcases hfirst : (e.search request).passes (e.contextOf request) (e.resolveInner
      (e.search request).delimiters (e.contextOf request)) (a - 1) content
      ((e.contextOf request).announce s).2 with ⟨err | ⟨first, m⟩, s'⟩
    · rfl
    · -- The second call announces a context that is announced already.
      dsimp only
      rw [bind_apply, bind_apply, processTags_apply,
        Context.announce_of_latched ((hquiet _ _).latched hs hfirst)]
  · have hs := (e.contextOf request).latched_announce s
    have hfirst := (processTags_apply e request request.maxDepth content s).symm.trans h
    have hsecond := processTags_apply e request request.maxDepth first s'
    rw [Context.announce_of_latched ((hquiet _ _).latched hs hfirst)] at hsecond
    refine hsecond.trans (Search.passes_of_passesMade_le hresolve hs hfirst ?_ _)
    exact Nat.le_pred_of_lt hearly

/-- **Whether the content changed can be read off the count.** A call that counts no tag answers the
content it was given, after a single pass; a call that answers another text has counted a tag in one
of its passes; and a comment, which is always dropped, is always counted. -/
theorem processTags_count_zero {e : Engine} {request : Request} {content out : Text} {count : ℕ}
    {s s' : State} (h : e.processTags request content s = (.ok (out, count), s')) :
    (count = 0 → out = content ∧ e.passesMade request content s = 1) ∧
      (out ≠ content → 0 < count) ∧
      ∀ inner ∈ (e.search request).delimiters.tags content, inner.head? = some '-' → 0 < count := by
  have hpass (hcount : count = 0) : (e.search request).pass (e.contextOf request) content
      (fun inner _ ↦ e.resolveInner (e.search request).delimiters (e.contextOf request) inner)
        ((e.contextOf request).announce s).2 = (.ok (out, 0), s') := by
    subst hcount
    exact Search.pass_of_passes_zero
      ((processTags_apply e request request.maxDepth content s).symm.trans h)
  refine ⟨fun hcount ↦ ?_, fun hne ↦ Nat.pos_of_ne_zero fun hcount ↦ ?_,
    fun inner hinner hdash ↦ Nat.pos_of_ne_zero fun hcount ↦ ?_⟩
  · exact ⟨Search.eq_of_pass_zero (hpass hcount), Search.passesMade_of_pass_zero (hpass hcount) _⟩
  · exact hne (Search.eq_of_pass_zero (hpass hcount))
  · obtain ⟨tally, hall, -, hnone⟩ := Search.exists_tally_of_pass (hpass hcount)
    have hpos := Search.count_lt_of_comment (fun _ ↦ id) hall hinner hdash
    rw [← hnone] at hpos
    exact Nat.not_lt_zero _ hpos

/-- An engine with the default options and without chunks. -/
def bare : Engine where
  options := {}
  chunks name := ChunkSource.missing name

/-- The first pass over this content drops the comment in it. -/
theorem bare_pass (s : State) :
    (bare.search {}).pass (bare.contextOf {}) "a[[-c]]b".toList
        (fun inner _ ↦ bare.resolveInner (bare.search {}).delimiters (bare.contextOf {}) inner) s =
      (.ok ("ab".toList, 1), s) := by
  have htags : (bare.search {}).delimiters.tags "a[[-c]]b".toList = ["-c".toList] := by cbv
  rw [Search.pass, htags]
  rfl

/-- The second pass finds nothing. -/
theorem bare_pass_again (s : State) :
    (bare.search {}).pass (bare.contextOf {}) "ab".toList
        (fun inner _ ↦ bare.resolveInner (bare.search {}).delimiters (bare.contextOf {}) inner) s =
      (.ok ("ab".toList, 0), s) := by
  have htags : (bare.search {}).delimiters.tags "ab".toList = [] := by cbv
  rw [Search.pass, htags]
  rfl

/-- One pass and nine passes are ten passes; of these the engine makes two, so the call can be
repeated. -/
theorem bare_processTags_add :
    1 ≤ 1 ∧ 1 ≤ 9 ∧
      (bare.processTags { maxDepth := 1 + 9 } "a[[-c]]b".toList = do
        let (first, m) ← bare.processTags { maxDepth := 1 } "a[[-c]]b".toList
        let (second, n) ← bare.processTags { maxDepth := 9 } first
        return (second, m + n)) ∧
      bare.processTags {} "a[[-c]]b".toList { store := .empty } =
        (.ok ("ab".toList, 1), { store := .empty }) ∧
      bare.passesMade {} "a[[-c]]b".toList { store := .empty } = 2 ∧
      bare.processTags {} "ab".toList { store := .empty } =
        (.ok ("ab".toList, 0), { store := .empty }) := by
  obtain ⟨hadd, hagain⟩ := processTags_add bare {} "a[[-c]]b".toList (a := 1) (b := 9)
    (by decide) (by decide)
  -- The first pass takes the comment out, and the second one finds nothing.
  have hrun : bare.processTags {} "a[[-c]]b".toList { store := .empty } =
      (.ok ("ab".toList, 1), { store := .empty }) := by
    refine (processTags_apply bare {} 10 _ _).trans ?_
    change (bare.search {}).passes _ _ 9 _ _ = _
    rw [Search.passes, bind_apply, bare_pass]
    change ((bare.search {}).passes _ _ 8 _ >>= _ : Run _) _ = _
    rw [Search.passes, bind_apply, bind_apply, bare_pass_again]
    rfl
  have hmade : bare.passesMade {} "a[[-c]]b".toList { store := .empty } = 2 := by
    rw [passesMade]
    change (bare.search {}).passesMade _ _ 9 _ _ = _
    rw [Search.passesMade, bare_pass]
    change (bare.search {}).passesMade _ _ 8 _ _ + 1 = _
    rw [Search.passesMade, bare_pass_again]
    rfl
  -- Two passes are fewer than ten, so that more of them change nothing.
  have hearly : bare.passesMade {} "a[[-c]]b".toList { store := .empty } < 10 := by
    rw [hmade]
    decide
  exact ⟨by decide, by decide, hadd, hrun, hmade, hagain _ _ _ _ hrun hearly⟩

/-- An uncacheable tag that is left alone is not counted, and a comment that is dropped is. -/
theorem bare_processTags_count_zero :
    bare.processTags {} "a[[!b]]c".toList { store := .empty } =
        (.ok ("a[[!b]]c".toList, 0), { store := .empty }) ∧
      bare.passesMade {} "a[[!b]]c".toList { store := .empty } = 1 ∧
      bare.processTags { maxDepth := 1 } "a[[-c]]b".toList { store := .empty } =
        (.ok ("ab".toList, 1), { store := .empty }) ∧
      "-c".toList ∈ (bare.search {}).delimiters.tags "a[[-c]]b".toList ∧
      0 < 1 := by
  have htags : (bare.search {}).delimiters.tags "a[[!b]]c".toList = ["!b".toList] := by cbv
  have hleft : bare.processTags {} "a[[!b]]c".toList { store := .empty } =
      (.ok ("a[[!b]]c".toList, 0), { store := .empty }) := by
    refine (processTags_apply bare {} 10 _ _).trans ?_
    change (bare.search {}).passes _ _ 9 _ _ = _
    rw [Search.passes, bind_apply, Search.pass, htags]
    rfl
  have hdropped : bare.processTags { maxDepth := 1 } "a[[-c]]b".toList { store := .empty } =
      (.ok ("ab".toList, 1), { store := .empty }) :=
    (processTags_apply bare {} 1 _ _).trans (bare_pass _)
  have hcomment : "-c".toList ∈ (bare.search {}).delimiters.tags "a[[-c]]b".toList := by
    have htags : (bare.search {}).delimiters.tags "a[[-c]]b".toList = ["-c".toList] := by cbv
    rw [htags]
    exact List.mem_singleton_self _
  obtain ⟨-, hmade⟩ := (processTags_count_zero hleft).1 rfl
  exact ⟨hleft, hmade, hdropped, hcomment, (processTags_count_zero hdropped).2.2 _ hcomment rfl⟩

end Engine

end TagTemplate
