import TagTemplate.Proofs.Evaluation

/-!
# Chains of chunks

The text of a chunk may call another chunk, and the text of that one the next. The last chunk of
such a chain has a text without tags, or calls a chunk of the chain again. What resolving the first
call comes to is fixed by the length of the chain, the limit on nesting and the last text alone
(`ChunkChain.outcome`).

The proof follows the calls downwards once. Call number `m` is resolved below the calls before it
(`ChunkChain.Reached`), and what it comes to there is carried back through the texts of these, each
of which stands around what comes from below (`Comes.pull`, `Comes.unwind`). So it is enough to know
what happens where the descent stops: at the first call for which the limit leaves no level, or at
the last chunk. There a call of the chunk itself is dropped before anything is entered, and a call
of an earlier one is refused as a cycle before the limit is looked at.
-/

namespace TagTemplate

open Run Delimiters TagSource

/-! ### Calls without properties -/

/-- A call without properties is resolved, unless it is the tag whose content is searched. -/
theorem Search.triage_callStart (tag : Text) (ctx : Context) (started : Bool) (name : Text) :
    (Search.mk brackets tag []).triage ctx started (callStart false name) =
      if brackets.wrap (callStart false name) = tag then .drop else .resolve := by
  rw [← List.append_nil (callStart false name), triage_call]

namespace Engine

variable {e : Engine} {store : Store} {ctx : Context}

/-- A call without properties, of a chunk that is not empty. -/
theorem resolve_callStart_yields {name content : Text} (hname : name.Word)
    (hchunk : e.chunks name = .ok content) (hne : content ≠ []) {result : Except TagError Text}
    (herror : ∀ err, e.enterContent (ctx.forSource ⟨false, .chunk, name, none⟩)
      (brackets.wrap (callStart false name)) = .error err → result = .error err)
    (hbody : ∀ below, e.enterContent (ctx.forSource ⟨false, .chunk, name, none⟩)
      (brackets.wrap (callStart false name)) = .ok below → ∀ within : Store,
        (e.bodyOf (brackets.wrap (callStart false name)) below content).Yields within result) :
    (e.resolveInner brackets ctx (callStart false name)).Yields store (result.map some) := by
  let inner := callStart false name
  have hread : read inner = ⟨false, .chunk, name, none⟩ := read_callStart false hname
  have hcomment : inner.head? ≠ some '-' := by simp [inner, callStart, marks, TagKind.token]
  have hplain : brackets.Plain inner := plain_callStart false hname.plain_brackets
  rw [← hread] at herror hbody
  exact resolve_call_yields hcomment (plain_arguments_yield separate_brackets hplain _) hread
    (splitName_word hname) (fun h ↦ absurd h Bool.false_ne_true) hchunk
    (fun hnil ↦ absurd hnil hne) (fun _ ↦ herror)
    fun _ below hbelow ↦ hbody below hbelow _

end Engine

/-! ### Chains -/

/-- What the last chunk of a chain holds. -/
inductive ChainEnd
  /-- A text without tags. -/
  | leaf (t : Text)
  /-- A call of the chunk with the given number. -/
  | back (target : ℕ)
deriving DecidableEq, Repr

/-- The text has neither brackets nor is it empty, or there is a chunk of the number. -/
def ChainEnd.Fits (last : ℕ) : ChainEnd → Prop
  | leaf t => t ≠ [] ∧ brackets.Plain t
  | back target => target ≤ last

/-- Whether an end fits can be computed. -/
instance (last : ℕ) : (ending : ChainEnd) → Decidable (ending.Fits last)
  | .leaf t => inferInstanceAs (Decidable (t ≠ [] ∧ brackets.Plain t))
  | .back target => inferInstanceAs (Decidable (target ≤ last))

/-- Chunks of which each one calls the next, numbered from zero: their names, which are distinct
words, and what stands before and after the call in the text of each, which has no brackets. -/
structure ChunkChain where
  last : ℕ
  name : ℕ → Text
  before : ℕ → Text
  after : ℕ → Text
  ending : ChainEnd
  word : ∀ i ≤ last, (name i).Word
  distinct : ∀ i ≤ last, ∀ j ≤ last, name i = name j → i = j
  plain : ∀ i ≤ last, brackets.Plain (before i) ∧ brackets.Plain (after i)
  fits : ending.Fits last

namespace ChunkChain

variable {c : ChunkChain} {e : Engine} {ctx : Context} {m : ℕ} {result : Except TagError Text}

/-- The tag that calls a chunk. -/
def tag (c : ChunkChain) (i : ℕ) : Text := brackets.wrap (callStart false (c.name i))

/-- The tags that call the first chunks, in order. -/
def tags (c : ChunkChain) (m : ℕ) : List Text := (List.range m).map c.tag

/-- The text of a chunk that calls another one. -/
def calling (c : ChunkChain) (i target : ℕ) : Text := c.before i ++ (c.tag target ++ c.after i)

/-- The text of a chunk. -/
def text (c : ChunkChain) (i : ℕ) : Text :=
  if i < c.last then c.calling i (i + 1)
  else match c.ending with
    | .leaf t => t
    | .back target => c.calling i target

/-- A text with what the first chunks put around it. -/
def around (c : ChunkChain) (m : ℕ) (t : Text) : Text :=
  (List.range m).flatMap c.before ++ (t ++ (List.range m).reverse.flatMap c.after)

/-- **What the call of the first chunk comes to** under a limit on nesting, where zero is none. If
the chain is longer than the limit, this is an error about the first call below it. If not, the end
decides: a text stands among what the chunks put around it, a call of the last chunk by itself is
cut out, and a call of an earlier chunk closes a cycle. -/
def outcome (c : ChunkChain) (limit : ℕ) : Except TagError Text :=
  if 0 < limit ∧ limit ≤ c.last then .error (.tooDeep (c.tag limit) limit)
  else match c.ending with
    | .leaf t => .ok (c.around c.last t)
    | .back target =>
      if target = c.last then .ok (c.around (c.last + 1) [])
      else .error (.cyclic (c.tag target) (c.tags (c.last + 1)))

/-- The engine has the chunks of the chain. Where it has no limit on nesting, its horizon is beyond
the chain. -/
structure HeldBy (c : ChunkChain) (e : Engine) : Prop where
  delimiters : e.options.delimiters = brackets
  chunk : ∀ i ≤ c.last, e.chunks (c.name i) = .ok (c.text i)
  horizon : e.options.maxNesting = 0 → c.last < e.horizon

/-! ### Names and texts -/

theorem tag_ne {i j : ℕ} (hi : i ≤ c.last) (hj : j ≤ c.last) (hij : i ≠ j) : c.tag i ≠ c.tag j :=
  fun htag ↦ hij (c.distinct i hi j hj (List.cons.inj (brackets.wrap_injective htag)).2)

/-- Among the first tags of the chain are those with smaller numbers only. -/
theorem mem_tags_iff {i : ℕ} (hi : i ≤ c.last) : c.tag i ∈ c.tags m ↔ i < m := by
  constructor
  · intro hmem
    obtain ⟨j, hj, htag⟩ := List.mem_map.1 hmem
    rw [List.mem_range] at hj
    by_contra hnot
    exact tag_ne (by omega) hi (by omega) htag
  · exact fun hlt ↦ List.mem_map_of_mem (List.mem_range.2 hlt)

theorem tags_succ (c : ChunkChain) (m : ℕ) : c.tags (m + 1) = c.tags m ++ [c.tag m] := by
  rw [tags, List.range_succ, List.map_append, List.map_singleton, tags]

theorem length_tags (c : ChunkChain) (m : ℕ) : (c.tags m).length = m := by
  rw [tags, List.length_map, List.length_range]

theorem calling_ne_nil (c : ChunkChain) (i target : ℕ) : c.calling i target ≠ [] := by
  simp [calling, tag, wrap, brackets]

theorem text_last (c : ChunkChain) : c.text c.last = match c.ending with
    | .leaf t => t
    | .back target => c.calling c.last target :=
  if_neg (Nat.lt_irrefl _)

theorem text_of_lt {i : ℕ} (h : i < c.last) : c.text i = c.calling i (i + 1) := if_pos h

/-- No chunk of the chain is empty. -/
theorem text_ne_nil (c : ChunkChain) (i : ℕ) : c.text i ≠ [] := by
  have hfits := c.fits
  rw [text]
  split
  · exact c.calling_ne_nil _ _
  · cases hending : c.ending with
    | leaf t =>
      rw [hending] at hfits
      exact hfits.1
    | back target => exact c.calling_ne_nil _ _

theorem plain_callStart (c : ChunkChain) {i : ℕ} (hi : i ≤ c.last) :
    brackets.Plain (callStart false (c.name i)) :=
  TagSource.plain_callStart false (c.word i hi).plain_brackets

/-- One chunk more puts its texts innermost. -/
theorem around_succ (c : ChunkChain) (m : ℕ) (t : Text) :
    c.around (m + 1) t = c.around m (c.before m ++ (t ++ c.after m)) := by
  simp [around, List.range_succ]

/-! ### One call -/

/-- The context of a call that is below the calls before it. -/
structure Reached (c : ChunkChain) (e : Engine) (m : ℕ) (ctx : Context) : Prop where
  resolving : ctx.resolving = c.tags m
  limit : e.nestingLimit ctx = e.options.maxNesting
  stays : ctx.removeUnprocessed = false

/-- What call number `m` comes to below the calls before it. If it is a text, it has no brackets. -/
structure Comes (c : ChunkChain) (e : Engine) (m : ℕ) (result : Except TagError Text) : Prop where
  plain : ∀ out, result = .ok out → brackets.Plain out
  yields : ∀ (ctx : Context) (store : Store), c.Reached e m ctx →
    (e.resolveInner brackets ctx (callStart false (c.name m))).Yields store (result.map some)

/-- The limit leaves a level below the first `m` calls. -/
def Room (e : Engine) (m : ℕ) : Prop := e.options.maxNesting = 0 ∨ m < e.options.maxNesting

/-- **A call is entered** if the limit leaves a level for it. -/
theorem Reached.enter (h : c.Reached e m ctx) (hheld : c.HeldBy e) (hm : m ≤ c.last)
    (hroom : Room e m) (source : TagSource) :
    ∃ below, e.enterContent (ctx.forSource source) (c.tag m) = .ok below ∧
      c.Reached e (m + 1) below := by
  have hlength : ctx.resolving.length = m := by rw [h.resolving, c.length_tags]
  have hlimit : e.nestingLimit (ctx.forSource source) = e.options.maxNesting := h.limit
  have hhorizon := hheld.horizon
  rw [Room] at hroom
  obtain ⟨hmem, -⟩ | ⟨hpos, hdeep, -⟩ | ⟨hzero, hdeep, -⟩ | ⟨below, hok, hresolving, hnesting, -, -,
    hremove⟩ := e.enterContent_cases (ctx.forSource source) (c.tag m)
  · have hmem : c.tag m ∈ ctx.resolving := hmem
    rw [h.resolving, mem_tags_iff hm] at hmem
    omega
  · have hdeep : e.nestingLimit (ctx.forSource source) ≤ ctx.resolving.length := hdeep
    omega
  · have hdeep : e.horizon ≤ ctx.resolving.length := hdeep
    omega
  · refine ⟨below, hok, ?_, ?_, hremove.trans h.stays⟩
    · rw [hresolving, c.tags_succ, ← h.resolving]
      rfl
    · rw [Engine.nestingLimit, hnesting, hlimit, ite_self]

/-- A call that is entered comes to what its text comes to. -/
theorem comes_of_bodyOf (hheld : c.HeldBy e) (hm : m ≤ c.last) (hroom : Room e m)
    (hplain : ∀ out, result = .ok out → brackets.Plain out)
    (hbody : ∀ (below : Context) (within : Store), c.Reached e (m + 1) below →
      (e.bodyOf (c.tag m) below (c.text m)).Yields within result) : c.Comes e m result := by
  refine ⟨hplain, fun ctx store hreached ↦ ?_⟩
  obtain ⟨below, hentered, hbelow⟩ := hreached.enter hheld hm hroom ⟨false, .chunk, c.name m, none⟩
  refine Engine.resolve_callStart_yields (c.word m hm) (hheld.chunk m hm) (c.text_ne_nil m)
    (fun err herror ↦ ?_) fun below' hbelow' within ↦ ?_
  · exact nomatch hentered.symm.trans herror
  · obtain rfl : below = below' := Except.ok.inj (hentered.symm.trans hbelow')
    exact hbody below within hbelow

/-- A call that is not entered comes to the error. -/
theorem resolve_refused_yields (hheld : c.HeldBy e) (hm : m ≤ c.last) {err : TagError}
    (hrefused : e.enterContent (ctx.forSource ⟨false, .chunk, c.name m, none⟩) (c.tag m) =
      .error err) (store : Store) :
    (e.resolveInner brackets ctx (callStart false (c.name m))).Yields store (.error err) := by
  let result : Except TagError Text := .error err
  show (e.resolveInner brackets ctx (callStart false (c.name m))).Yields store (result.map some)
  refine Engine.resolve_callStart_yields (c.word m hm) (hheld.chunk m hm) (c.text_ne_nil m)
    (fun err' herror ↦ ?_) fun below hbelow ↦ ?_
  · exact congrArg _ (Except.error.inj (hrefused.symm.trans herror))
  · exact nomatch hrefused.symm.trans hbelow

/-- In the text of a chunk, the call of another one is replaced by what it comes to. -/
theorem bodyOf_calling_yields (hheld : c.HeldBy e) {i target : ℕ} (hi : i ≤ c.last)
    (htarget : target ≤ c.last) {below : Context} {within : Store}
    (hremove : below.removeUnprocessed = false)
    (hgoes : (Search.mk brackets (c.tag i) []).Goes below within (e.resolveInner brackets below)
      (callStart false (c.name target)) result)
    (hplain : ∀ out, result = .ok out → brackets.Plain out) :
    (e.bodyOf (c.tag i) below (c.calling i target)).Yields within
      (result.map fun out ↦ c.before i ++ (out ++ c.after i)) :=
  Engine.bodyOf_yields_single separate_brackets hheld.delimiters hremove (c.plain i hi).1
    (c.plain_callStart htarget) (c.plain i hi).2 hgoes hplain

/-- The call of another chunk goes as its resolution does. -/
theorem goes_of_ne {i target : ℕ} (hi : i ≤ c.last) (htarget : target ≤ c.last) (hne : target ≠ i)
    {below : Context} {within : Store}
    (h : (e.resolveInner brackets below (callStart false (c.name target))).Yields within
      (result.map some)) :
    (Search.mk brackets (c.tag i) []).Goes below within (e.resolveInner brackets below)
      (callStart false (c.name target)) result := by
  have htag : brackets.wrap (callStart false (c.name target)) ≠ c.tag i := tag_ne htarget hi hne
  rw [Search.Goes, Search.triage_callStart, if_neg htag]
  exact h

/-! ### Back through the calls -/

/-- **One call up**: what a call comes to stands in the text of the chunk before. -/
theorem Comes.pull (h : c.Comes e (m + 1) result) (hheld : c.HeldBy e) (hm : m < c.last)
    (hroom : Room e m) : c.Comes e m (result.map fun out ↦ c.before m ++ (out ++ c.after m)) := by
  have hle : m ≤ c.last := Nat.le_of_lt hm
  refine comes_of_bodyOf hheld hle hroom (fun out hout ↦ ?_) fun below within hbelow ↦ ?_
  · cases result with
    | error err => cases hout
    | ok inside =>
      cases hout
      exact Plain.append_iff.2 ⟨(c.plain m hle).1,
        Plain.append_iff.2 ⟨h.plain inside rfl, (c.plain m hle).2⟩⟩
  · rw [text_of_lt hm]
    exact bodyOf_calling_yields hheld hle hm hbelow.stays
      (goes_of_ne hle hm (Nat.succ_ne_self m) (h.yields below within hbelow)) h.plain

/-- **All the way up**: what a call comes to stands in the texts of all the chunks before. -/
theorem Comes.unwind (h : c.Comes e m result) (hheld : c.HeldBy e) (hm : m ≤ c.last)
    (hroom : ∀ i < m, Room e i) : c.Comes e 0 (result.map (c.around m)) := by
  induction m generalizing result with
  | zero =>
    have hnone : result.map (c.around 0) = result := by
      cases result <;> simp [Except.map, around]
    rw [hnone]
    exact h
  | succ m ih =>
    have hpulled := h.pull hheld hm (hroom m (Nat.lt_succ_self m))
    have hall := ih hpulled (by omega) fun i hi ↦ hroom i (by omega)
    have haround : (result.map fun out ↦ c.before m ++ (out ++ c.after m)).map (c.around m) =
        result.map (c.around (m + 1)) := by
      cases result with
      | error err => rfl
      | ok out => exact congrArg Except.ok (c.around_succ m out).symm
    rw [haround] at hall
    exact hall

/-! ### Where the descent stops -/

/-- The first call for which the limit leaves no level is too deep. -/
theorem comes_tooDeep (hheld : c.HeldBy e) {limit : ℕ} (hlimit : e.options.maxNesting = limit)
    (hpos : 0 < limit) (hle : limit ≤ c.last) :
    c.Comes e limit (.error (.tooDeep (c.tag limit) limit)) := by
  refine ⟨fun out hout ↦ (nomatch hout), fun ctx store hreached ↦ ?_⟩
  let below : Context := ctx.forSource ⟨false, .chunk, c.name limit, none⟩
  have hresolving : below.resolving = c.tags limit := hreached.resolving
  have hnesting : e.nestingLimit below = limit := hreached.limit.trans hlimit
  refine resolve_refused_yields hheld hle ?_ store
  have hlength := congrArg List.length hresolving
  rw [c.length_tags] at hlength
  obtain ⟨hmem, -⟩ | ⟨-, -, herror⟩ | ⟨hzero, -⟩ | ⟨_, -, -, -, hlevels, -⟩ :=
    e.enterContent_cases below (c.tag limit)
  · rw [hresolving, mem_tags_iff hle] at hmem
    omega
  · rw [herror, hnesting]
  · omega
  · omega

/-- A call of a chunk whose text is being resolved closes a cycle. -/
theorem resolve_back_yields (hheld : c.HeldBy e) {target : ℕ} (htarget : target ≤ c.last)
    (hreached : c.Reached e (c.last + 1) ctx) (store : Store) :
    (e.resolveInner brackets ctx (callStart false (c.name target))).Yields store
      (.error (.cyclic (c.tag target) (c.tags (c.last + 1)))) := by
  let below : Context := ctx.forSource ⟨false, .chunk, c.name target, none⟩
  have hresolving : below.resolving = c.tags (c.last + 1) := hreached.resolving
  have hmem : c.tag target ∈ below.resolving := by
    rw [hresolving, mem_tags_iff htarget]
    exact Nat.lt_succ_of_le htarget
  refine resolve_refused_yields hheld htarget ?_ store
  rw [Engine.enterContent, Context.enter, dif_pos hmem, ← hresolving]

section Last

variable (hheld : c.HeldBy e) (hroom : Room e c.last)
include hheld hroom

/-- A text without tags stands as it is. -/
theorem comes_leaf {t : Text} (hending : c.ending = .leaf t) : c.Comes e c.last (.ok t) := by
  have hplain : brackets.Plain t := (hending ▸ c.fits : (ChainEnd.leaf t).Fits c.last).2
  refine comes_of_bodyOf hheld (Nat.le_refl _) hroom (fun out hout ↦ Except.ok.inj hout ▸ hplain)
    fun below within hbelow ↦ ?_
  rw [text_last, hending]
  exact Engine.bodyOf_yields_self separate_brackets hheld.delimiters hbelow.stays hplain

/-- A call of the last chunk by itself is cut out. -/
theorem comes_self (hending : c.ending = .back c.last) :
    c.Comes e c.last (.ok (c.before c.last ++ c.after c.last)) := by
  have hlast : c.last ≤ c.last := Nat.le_refl _
  refine comes_of_bodyOf hheld hlast hroom
    (fun out hout ↦ Except.ok.inj hout ▸ Plain.append_iff.2 (c.plain c.last hlast))
    fun below within hbelow ↦ ?_
  have hdropped : (Search.mk brackets (c.tag c.last) []).Goes below within
      (e.resolveInner brackets below) (callStart false (c.name c.last)) (.ok []) := by
    have htag : brackets.wrap (callStart false (c.name c.last)) = c.tag c.last := rfl
    rw [Search.Goes, Search.triage_callStart, if_pos htag]
  rw [text_last, hending]
  exact bodyOf_calling_yields hheld hlast hlast hbelow.stays hdropped
    fun out hout ↦ Except.ok.inj hout ▸ Plain.nil

/-- A call of an earlier chunk closes a cycle. -/
theorem comes_back {target : ℕ} (hending : c.ending = .back target) (hne : target ≠ c.last) :
    c.Comes e c.last (.error (.cyclic (c.tag target) (c.tags (c.last + 1)))) := by
  have hlast : c.last ≤ c.last := Nat.le_refl _
  have htarget : target ≤ c.last := (hending ▸ c.fits : (ChainEnd.back target).Fits c.last)
  refine comes_of_bodyOf hheld hlast hroom (fun out hout ↦ nomatch hout)
    fun below within hbelow ↦ ?_
  have hcyclic : (Search.mk brackets (c.tag c.last) []).Goes below within
      (e.resolveInner brackets below) (callStart false (c.name target))
        (.error (.cyclic (c.tag target) (c.tags (c.last + 1)))) :=
    goes_of_ne hlast htarget hne (resolve_back_yields hheld htarget hbelow within)
  rw [text_last, hending]
  exact bodyOf_calling_yields hheld hlast htarget hbelow.stays hcyclic fun out hout ↦ nomatch hout

end Last

/-! ### The whole chain -/

/-- What the first call comes to, below no other. -/
theorem comes_outcome (hheld : c.HeldBy e) : c.Comes e 0 (c.outcome e.options.maxNesting) := by
  rw [outcome]
  split
  · rename_i hdeep
    exact (comes_tooDeep hheld rfl hdeep.1 hdeep.2).unwind hheld hdeep.2 fun i hi ↦ .inr hi
  · rename_i hshallow
    have hroom {i : ℕ} (hi : i ≤ c.last) : Room e i := by
      rw [Room]
      omega
    have hlast : Room e c.last := hroom (Nat.le_refl _)
    have hunwind {result : Except TagError Text} (h : c.Comes e c.last result) :
        c.Comes e 0 (result.map (c.around c.last)) :=
      h.unwind hheld (Nat.le_refl _) fun i hi ↦ hroom (Nat.le_of_lt hi)
    cases hending : c.ending with
    | leaf t => exact hunwind (comes_leaf hheld hlast hending)
    | back target =>
      dsimp only
      split
      · rename_i htarget
        rw [around_succ, List.nil_append]
        exact hunwind (comes_self hheld hlast (htarget ▸ hending))
      · rename_i htarget
        exact hunwind (comes_back hheld hlast hending htarget)

/-- **A chain of chunks resolves to its outcome**, from every state. -/
theorem process_eq_outcome (hheld : c.HeldBy e) (s : State) :
    (e.process (c.tag 0) s).1 = c.outcome e.options.maxNesting := by
  have hcomes := comes_outcome hheld
  have hreached : c.Reached e 0 e.fullContext := by
    refine ⟨rfl, ?_, rfl⟩
    rw [Engine.nestingLimit]
    exact ite_self _
  have hgoes : (Search.mk brackets [] []).Goes e.fullContext s.store
      (e.resolveInner brackets e.fullContext) (callStart false (c.name 0))
        (c.outcome e.options.maxNesting) := by
    rw [Search.Goes, Search.triage_callStart, if_neg (by simp [wrap, brackets])]
    exact hcomes.yields _ s.store hreached
  obtain ⟨total, hpasses⟩ := Search.passes_yields_single separate_brackets rfl Plain.nil
    (c.plain_callStart (Nat.zero_le _)) Plain.nil hgoes hcomes.plain (e.options.maxIterations - 1)
  have hcontent : [] ++ (brackets.wrap (callStart false (c.name 0)) ++ []) = c.tag 0 :=
    List.append_nil _
  rw [← hcontent, Engine.process_of_yields hheld.delimiters hpasses]
  cases c.outcome e.options.maxNesting with
  | error err => rfl
  | ok out => exact congrArg Except.ok (List.append_nil out)

/-- Three chunks in a row, each of which puts a number and a stop around the next. -/
def stairs (ending : ChainEnd) (fits : ending.Fits 2) : ChunkChain where
  last := 2
  name i := Text.ofNat i
  before i := Text.ofNat i
  after _ := ['.']
  ending
  word := by decide
  distinct := by decide
  plain := by decide
  fits

/-- An engine that has the three chunks in memory, with a limit on nesting. -/
def stairwell (ending : ChainEnd) (fits : ending.Fits 2) (limit : ℕ) : Engine where
  options := { maxNesting := limit }
  chunks := .ofDict (.ofList ((List.range 3).map fun i ↦
    ((stairs ending fits).name i, (stairs ending fits).text i)))

theorem stairwell_holds (ending : ChainEnd) (fits : ending.Fits 2) (limit : ℕ) :
    (stairs ending fits).HeldBy (stairwell ending fits limit) where
  delimiters := rfl
  chunk i hi := by
    obtain rfl | rfl | rfl : i = 0 ∨ i = 1 ∨ i = 2 := by
      have hi : i ≤ 2 := hi
      omega
    · rfl
    · rfl
    · rfl
  horizon _ := (by decide : 2 < 4096)

/-- A chain that ends in a text, with enough levels and with one too few; and one that ends in a
call of its last or of its first chunk. -/
theorem stairwell_processes :
    let start (ending : ChainEnd) (fits : ending.Fits 2) (limit : ℕ) :=
      ((stairwell ending fits limit).process "[[$0]]".toList { store := .empty }).1
    start (.leaf ['x']) (by decide) 3 = .ok "01x..".toList ∧
      start (.leaf ['x']) (by decide) 2 = .error (.tooDeep "[[$2]]".toList 2) ∧
      start (.back 2) (by decide) 0 = .ok "012...".toList ∧
      start (.back 0) (by decide) 3 =
        .error (.cyclic "[[$0]]".toList ["[[$0]]".toList, "[[$1]]".toList, "[[$2]]".toList]) :=
  ⟨process_eq_outcome (stairwell_holds _ _ 3) _, process_eq_outcome (stairwell_holds _ _ 2) _,
    process_eq_outcome (stairwell_holds _ _ 0) _, process_eq_outcome (stairwell_holds _ _ 3) _⟩

end ChunkChain

end TagTemplate
