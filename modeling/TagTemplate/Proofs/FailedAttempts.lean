import TagTemplate.Proofs.Evaluation

/-!
# Attempts that leave nothing behind

A host can hold on to a tag and process it again until it is done. An attempt sets the properties in
effect, fixes the text of the tag and loads its content before it is known how it ends: it can fail
when the content is loaded, when it is entered or while it is resolved, and it can end without an
output. So a tag that is not done carries traces of the attempts before.

None of them makes a difference. What an attempt comes to depends on the source of the tag, which is
its kind, its name as written, its own properties and its text, and every attempt keeps these
(`Tag.akin_process`); in particular the text that it fixes is the text that the tag had. Everything
else is set anew before it is read (`Tag.Akin.process_eq`). By induction on the attempts, the next
one is like the first one of a tag that was just built (`Tag.retry_is_fresh`).
-/

namespace TagTemplate

/-- The tags have the same source: an attempt on either of them reads the same. -/
structure Tag.Akin (tag tag' : Tag) : Prop where
  kind : tag'.kind = tag.kind
  rawName : tag'.rawName = tag.rawName
  defaults : tag'.defaults = tag.defaults
  text : tag'.text = tag.text

namespace Tag

variable {tag tag' tag'' : Tag} {e : Engine} {ctx : Context} {explicit : Properties} {s : State}

theorem Akin.refl (tag : Tag) : tag.Akin tag := ⟨rfl, rfl, rfl, rfl⟩

theorem Akin.symm (h : tag.Akin tag') : tag'.Akin tag :=
  ⟨h.kind.symm, h.rawName.symm, h.defaults.symm, h.text.symm⟩

theorem Akin.trans (h : tag.Akin tag') (h' : tag'.Akin tag'') : tag.Akin tag'' where
  kind := h'.kind.trans h.kind
  rawName := h'.rawName.trans h.rawName
  defaults := h'.defaults.trans h.defaults
  text := h'.text.trans h.text

/-! ### One attempt -/

/-- How an attempt can end on a tag that is not done: the content cannot be loaded; or it is loaded
and cannot be entered or resolved; or it is resolved as far as there is any, and the filters make an
output of that. -/
inductive Attempted (tag : Tag) (e : Engine) (ctx : Context) (explicit : Properties) (s : State) :
    Except TagError (Option Text) × Tag × State → Prop
  | unloaded {err : TagError}
    (hload : (tag.prepared e s.store explicit).load e s.store = .error err) :
    Attempted tag e ctx explicit s
      (.error err, tag.prepared e s.store explicit, { s with processingElement := true })
  | unresolved {content : Option Text} {err : TagError} {s' : State}
    (hload : (tag.prepared e s.store explicit).load e s.store = .ok content)
    (hfill : (tag.prepared e s.store explicit).fill (e.enterContent ctx tag.text)
      (e.bodyOf tag.text) content { s with processingElement := true } = (.error err, s')) :
    Attempted tag e ctx explicit s
      (.error err, { tag.prepared e s.store explicit with content }, s')
  | answered {content resolved : Option Text} {s' : State}
    (hload : (tag.prepared e s.store explicit).load e s.store = .ok content)
    (hfill : (tag.prepared e s.store explicit).fill (e.enterContent ctx tag.text)
      (e.bodyOf tag.text) content { s with processingElement := true } = (.ok resolved, s')) :
    Attempted tag e ctx explicit s
      (.ok (tag.filtered resolved),
        ({ tag.prepared e s.store explicit with content } : Tag).finished (tag.filtered resolved)
          s'.uncacheableStarted, s')

/-- An attempt that can end in one of these ways does so. -/
theorem Attempted.eq {ended : Except TagError (Option Text) × Tag × State}
    (h : tag.processed = false) (hended : tag.Attempted e ctx explicit s ended) :
    tag.process e ctx explicit s = ended := by
  have hnot : ¬(tag.prepared e s.store explicit).processed = true :=
    fun hp ↦ Bool.false_ne_true (h.symm.trans hp)
  have hbody : ∀ below, e.enterContent ctx tag.text = .ok below →
      e.bodyOf tag.text below = e.bodyOf tag.text below := fun _ _ ↦ rfl
  -- The content is resolved in the same way, whether or not it is recorded before.
  have hresolve (content : Option Text) := congrFun (resolveContent_eq_fill
    { tag.prepared e s.store explicit with content } hbody content)
      { s with processingElement := true }
  rw [process, attempt]
  dsimp only
  rw [if_neg hnot]
  cases hended with
  | unloaded hload => rw [hload]
  | unresolved hload hfill =>
    rw [hload]
    dsimp only
    split <;> rename_i hrun <;> cases hfill.symm.trans ((hresolve _).symm.trans hrun)
    rfl
  | answered hload hfill =>
    rw [hload]
    dsimp only
    split <;> rename_i hrun <;> cases hfill.symm.trans ((hresolve _).symm.trans hrun)
    rfl

/-- The attempt on a tag that is not done ends in one of these ways. -/
theorem attempted (h : tag.processed = false) (e : Engine) (ctx : Context) (explicit : Properties)
    (s : State) : tag.Attempted e ctx explicit s (tag.process e ctx explicit s) := by
  let prepared := tag.prepared e s.store explicit
  cases hload : prepared.load e s.store with
  | error err =>
    have hended : tag.Attempted e ctx explicit s _ := .unloaded hload
    rwa [hended.eq h]
  | ok content =>
    rcases hfill : prepared.fill (e.enterContent ctx tag.text) (e.bodyOf tag.text) content
      { s with processingElement := true } with ⟨err | resolved, s'⟩
    · have hended : tag.Attempted e ctx explicit s _ := .unresolved hload hfill
      rwa [hended.eq h]
    · have hended : tag.Attempted e ctx explicit s _ := .answered hload hfill
      rwa [hended.eq h]

/-- An attempt on a tag that is done answers its output again. -/
theorem process_of_processed (h : tag.processed = true) :
    tag.process e ctx explicit s =
      (.ok tag.output, tag.prepared e s.store explicit, { s with processingElement := true }) :=
  if_pos h

/-- Every attempt keeps the source of the tag, however it ends. -/
theorem akin_process (tag : Tag) (e : Engine) (ctx : Context) (explicit : Properties) (s : State) :
    tag.Akin (tag.process e ctx explicit s).2.1 := by
  cases hp : tag.processed with
  | true =>
    rw [process_of_processed hp]
    exact ⟨rfl, rfl, rfl, rfl⟩
  | false =>
    have hattempted := attempted hp e ctx explicit s
    generalize tag.process e ctx explicit s = ended at hattempted ⊢
    cases hattempted <;> exact ⟨rfl, rfl, rfl, rfl⟩

/-- A tag that is done stays done. -/
theorem processed_of_process (h : (tag.process e ctx explicit s).2.1.processed = false) :
    tag.processed = false := by
  cases hp : tag.processed with
  | true =>
    rw [process_of_processed hp] at h
    exact hp.symm.trans h
  | false => rfl

/-- An attempt that leaves the tag undone ended in an error, or without an output before any
uncacheable tag was allowed. -/
theorem ended_of_unprocessed (h : (tag.process e ctx explicit s).2.1.processed = false) :
    (∃ err, (tag.process e ctx explicit s).1 = .error err) ∨
      (tag.process e ctx explicit s).1 = .ok none ∧
        (tag.process e ctx explicit s).2.2.uncacheableStarted = false := by
  have hattempted := attempted (processed_of_process h) e ctx explicit s
  generalize tag.process e ctx explicit s = ended at hattempted h ⊢
  cases hattempted with
  | unloaded => exact .inl ⟨_, rfl⟩
  | unresolved => exact .inl ⟨_, rfl⟩
  | @answered content resolved s' hload hfill =>
    simp only [finished, Bool.or_eq_false_iff, Option.isSome_eq_false_iff,
      Option.isNone_iff_eq_none] at h
    exact .inr ⟨congrArg Except.ok h.1.2, h.2⟩

/-- **An attempt that ends in an error** leaves the tag undone, and its output as it was. -/
theorem unchanged_of_error {err : TagError} (h : (tag.process e ctx explicit s).1 = .error err) :
    (tag.process e ctx explicit s).2.1.processed = false ∧
      (tag.process e ctx explicit s).2.1.output = tag.output := by
  cases hp : tag.processed with
  | true =>
    rw [process_of_processed hp] at h
    cases h
  | false =>
    have hattempted := attempted hp e ctx explicit s
    generalize tag.process e ctx explicit s = ended at hattempted h ⊢
    cases hattempted with
    | unloaded => exact ⟨hp, rfl⟩
    | unresolved => exact ⟨hp, rfl⟩
    | answered => cases h

/-! ### Attempts on tags with the same source -/

/-- What the preparation of tags with the same source leaves apart. -/
theorem Akin.prepared_eq (h : tag.Akin tag') (e : Engine) (store : Store) (explicit : Properties) :
    tag'.prepared e store explicit =
      { tag.prepared e store explicit with
        rawProperties := tag'.rawProperties, content := tag'.content, output := tag'.output,
        processed := tag'.processed } := by
  simp only [prepared, h.kind, h.rawName, h.defaults, h.text]

/-- **Attempts on tags with the same source are the same**, as long as neither of the tags is done.
If they answer, the tags are the same afterwards, but for the property string that came with
them. -/
theorem Akin.process_eq (h : tag.Akin tag') (hp : tag.processed = false)
    (hp' : tag'.processed = false) (e : Engine) (ctx : Context) (explicit : Properties)
    (s : State) :
    let first := tag.process e ctx explicit s
    let again := tag'.process e ctx explicit s
    again.1 = first.1 ∧ again.2.2 = first.2.2 ∧ ∀ output, again.1 = .ok output →
      again.2.1 = { first.2.1 with rawProperties := tag'.rawProperties } := by
  intro first again
  -- Prepared, the two tags differ in the property string only, which nothing reads any more.
  have hprepared := h.prepared_eq e s.store explicit
  have hload : (tag'.prepared e s.store explicit).load e s.store =
      (tag.prepared e s.store explicit).load e s.store := by rw [hprepared]; rfl
  have hfill : (tag'.prepared e s.store explicit).fill =
      (tag.prepared e s.store explicit).fill := by rw [hprepared]; rfl
  have hfiltered : tag'.filtered = tag.filtered := by
    funext resolved
    rw [filtered, filtered, filters, filters, h.rawName]
  have hfirst : tag.Attempted e ctx explicit s first := attempted hp e ctx explicit s
  -- Whichever way the first attempt ends, the other one ends in the same way.
  generalize first = ended at hfirst ⊢
  cases hfirst with
  | unloaded hfailed =>
    have hagain : again = _ := (Attempted.unloaded (hload.trans hfailed)).eq hp'
    rw [hagain]
    exact ⟨rfl, rfl, fun output hout ↦ by cases hout⟩
  | unresolved hloaded hfailed =>
    rw [← hfill, ← h.text] at hfailed
    have hagain : again = _ := (Attempted.unresolved (hload.trans hloaded) hfailed).eq hp'
    rw [hagain]
    exact ⟨rfl, rfl, fun output hout ↦ by cases hout⟩
  | answered hloaded hresolved =>
    rw [← hfill, ← h.text] at hresolved
    have hagain : again = _ := (Attempted.answered (hload.trans hloaded) hresolved).eq hp'
    rw [hagain, hfiltered, hprepared]
    have hundone : (tag.prepared e s.store explicit).processed = false := hp
    refine ⟨rfl, rfl, fun output _ ↦ ?_⟩
    rw [finished, finished]
    dsimp only
    rw [hp', hundone]

/-! ### One attempt after the other -/

/-- The tag with the same source that was just built: nothing was attempted on it, and no property
string came with it. -/
def fresh (tag : Tag) : Tag :=
  { new tag.kind tag.rawName with defaults := tag.defaults, written := tag.written }

theorem akin_fresh (tag : Tag) : tag.Akin tag.fresh := ⟨rfl, rfl, rfl, rfl⟩

end Tag

/-- What an attempt is made with: the engine, the terms, and the state that it finds. -/
structure Attempt where
  engine : Engine
  ctx : Context
  explicit : Properties
  state : State

/-- How the attempt ends on a tag. -/
def Attempt.on (attempt : Attempt) (tag : Tag) : Except TagError (Option Text) × Tag × State :=
  tag.process attempt.engine attempt.ctx attempt.explicit attempt.state

namespace Tag

/-- The tag after the attempts, one after the other. -/
def afterAll (tag : Tag) (attempts : List Attempt) : Tag :=
  attempts.foldl (fun tag attempt ↦ (attempt.on tag).2.1) tag

/-- Attempts leave a tag akin to itself. -/
theorem akin_afterAll (tag : Tag) (attempts : List Attempt) : tag.Akin (tag.afterAll attempts) := by
  induction attempts generalizing tag with
  | nil => exact .refl tag
  | cons attempt attempts ih => exact (tag.akin_process ..).trans (ih _)

theorem afterAll_append (tag : Tag) (before after : List Attempt) :
    tag.afterAll (before ++ after) = (tag.afterAll before).afterAll after := List.foldl_append

/-- A tag that is not done after some attempts was not done before them. -/
theorem processed_of_afterAll {tag : Tag} {attempts : List Attempt}
    (h : (tag.afterAll attempts).processed = false) : tag.processed = false := by
  induction attempts generalizing tag with
  | nil => exact h
  | cons attempt attempts ih => exact processed_of_process (ih h)

/-- **A failed attempt leaves no trace.** When attempts have left a tag undone, each of them ended
in an error, or without an output before any uncacheable tag was allowed. The next attempt then
comes to what it comes to on a tag that was just built from the same source: it answers or fails
with the same and leaves the same state, and if it answers, the tags are the same in everything but
the property string that came with the one. An attempt that ends in an error on any tag leaves it
undone, with the output that it had. -/
theorem retry_is_fresh (tag : Tag) (attempts : List Attempt)
    (hundone : (tag.afterAll attempts).processed = false) :
    (∀ before attempt after, attempts = before ++ attempt :: after →
      let ended := attempt.on (tag.afterAll before)
      (∃ err, ended.1 = .error err) ∨
        ended.1 = .ok none ∧ ended.2.2.uncacheableStarted = false) ∧
    (∀ next : Attempt,
      let again := next.on (tag.afterAll attempts)
      let first := next.on tag.fresh
      again.1 = first.1 ∧ again.2.2 = first.2.2 ∧
      ∀ output, again.1 = .ok output →
        again.2.1.content = first.2.1.content ∧ again.2.1.output = first.2.1.output ∧
        again.2.1.properties = first.2.1.properties ∧
        again.2.1.processed = first.2.1.processed ∧ again.2.1.text = first.2.1.text) ∧
    ∀ (next : Attempt) (other : Tag) (err : TagError), (next.on other).1 = .error err →
      (next.on other).2.1.processed = false ∧ (next.on other).2.1.output = other.output := by
  refine ⟨fun before attempt after hattempts ↦ ?_, fun next ↦ ?_,
    fun next other err herror ↦ unchanged_of_error herror⟩
  · rw [hattempts, afterAll_append] at hundone
    exact ended_of_unprocessed (processed_of_afterAll hundone)
  · intro again first
    have hakin : tag.fresh.Akin (tag.afterAll attempts) :=
      tag.akin_fresh.symm.trans (tag.akin_afterAll attempts)
    obtain ⟨hresult, hstate, htag⟩ :=
      hakin.process_eq rfl hundone next.engine next.ctx next.explicit next.state
    refine ⟨hresult, hstate, fun output houtput ↦ ?_⟩
    have hsame : again.2.1 = _ := htag output houtput
    rw [hsame]
    exact ⟨rfl, rfl, rfl, rfl, rfl⟩

/-- A chunk tag with a property of its own. -/
def card : Tag :=
  { new .chunk "card".toList with defaults := .ofList [("title".toList, "Hi".toList)] }

/-- An attempt without any chunk, and one inside the content of the tag itself. -/
def failing : List Attempt :=
  let source : ChunkSource := fun name ↦
    if name = "card".toList then .ok "<[[+title]]>".toList
    else ChunkSource.missing name
  let within : Context :=
    { Context.new true false 10 with
      resolving := [card.text], distinct := List.pairwise_singleton _ _ }
  [{ engine := { options := {}, chunks := ChunkSource.ofDict .empty }
     ctx := Context.new true false 10
     explicit := .empty
     state := { store := .empty } },
    { engine := { options := {}, chunks := source }
      ctx := within
      explicit := .ofList [("title".toList, "Ho".toList)]
      state := { store := .empty } }]

/-- The attempts fail for different reasons, the tag keeps traces of them, and the next attempt is
like the first one all the same. -/
theorem card_retried :
    failing.map (fun attempt ↦ (attempt.on card).1) =
      [.error (.chunk (.notFound "card".toList (ChunkSource.memoryPath "card".toList))),
        .error (.cyclic card.text [card.text])] ∧
    (card.afterAll failing).processed = false ∧
    (card.afterAll failing).content = some "<[[+title]]>".toList ∧
    ∀ next : Attempt,
      let again := next.on (card.afterAll failing)
      let first := next.on card.fresh
      again.1 = first.1 ∧ again.2.2 = first.2.2 ∧
      ∀ output, again.1 = .ok output →
        again.2.1.content = first.2.1.content ∧ again.2.1.output = first.2.1.output ∧
        again.2.1.properties = first.2.1.properties ∧
        again.2.1.processed = first.2.1.processed ∧ again.2.1.text = first.2.1.text := by
  have hundone : (card.afterAll failing).processed = false := by decide +kernel
  exact ⟨rfl, hundone, by decide +kernel, (card.retry_is_fresh failing hundone).2.1⟩

end Tag

end TagTemplate
