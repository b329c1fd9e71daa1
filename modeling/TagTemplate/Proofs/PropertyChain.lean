import TagTemplate.Proofs.ChunkProperties

/-!
# One property along a chain of chunks

A chunk passes a property of some name to the next chunk, that one passes a property of the same
name to the one behind it, and so on; the last chunk has a tag for the name. Which of the texts that
were given on the way comes out is fixed by the precedence, and is one at an end of the chain
(`PropertyChain.winner`).

The properties of a chunk are written into the store before its content is resolved. So from the
second chunk on the store has a text of the name, and this is where the policies part: if properties
win over the store, each chunk hides what the chunks before it have written, and the last one is
left; if the store wins over properties, the text that came first is passed on by all of them, be it
one that the store had from the beginning or the one given to the first chunk. What a chunk writes
decides as much about the rest of the chain as the store before it did (`winner_succ`), and with
that the resolution is followed from the last chunk upwards (`call_yields`).
-/

namespace TagTemplate

open Run Delimiters TagSource

/-- Chunks of which each one calls the next, numbered from zero, with one property of the same name
for each: the names of the chunks, which are distinct words, the name of the property, which is a
word, and its texts, which have neither brackets nor quotes. -/
structure PropertyChain where
  last : ℕ
  name : ℕ → Text
  key : Text
  value : ℕ → Text
  word : ∀ i ≤ last, (name i).Word
  distinct : ∀ i ≤ last, ∀ j ≤ last, name i = name j → i = j
  word_key : key.Word
  plain : ∀ i ≤ last, brackets.Plain (value i) ∧ Text.quoteMark ∉ value i

namespace PropertyChain

variable {c : PropertyChain} {e : Engine} {ctx : Context} {store : Store} {m : ℕ}

/-- The property that a chunk is called with. -/
def given (c : PropertyChain) (i : ℕ) : Properties := ⟨[(c.key, c.value i)], by simp⟩

/-- The inner text of the tag that calls a chunk. -/
def call (c : PropertyChain) (i : ℕ) : Text := chunkCall false (c.name i) (c.given i)

/-- The tag that calls a chunk. -/
def tag (c : PropertyChain) (i : ℕ) : Text := brackets.wrap (c.call i)

/-- The tags that call the first chunks, in order. -/
def tags (c : PropertyChain) (m : ℕ) : List Text := (List.range m).map c.tag

/-- The text of a chunk: the call of the next one, or the tag for the property. -/
def text (c : PropertyChain) (i : ℕ) : Text :=
  if i < c.last then c.tag (i + 1) else brackets.wrap (placeholder false c.key)

/-- The engine has the chunks of the chain, and its limit on nesting, or its horizon where it has no
limit, leaves a level for the text of the property below all of them. -/
structure HeldBy (c : PropertyChain) (e : Engine) : Prop where
  delimiters : e.options.delimiters = brackets
  chunk : ∀ i ≤ c.last, e.chunks (c.name i) = .ok (c.text i)
  levels : c.last + 1 < if e.options.maxNesting = 0 then e.horizon else e.options.maxNesting

/-! ### Which text wins -/

/-- What the property is in the content of a chunk, if the store outside has the given text. -/
def held (c : PropertyChain) (precedence : Precedence) (i : ℕ) (stored : Option Text) : Text :=
  (precedence.overriding stored).getD (c.value i)

/-- **What comes out of the call of a chunk**, if the store outside has the given text: where
properties win, the text that is given last; where the store wins, its own one, and if there is none
the text that is given first. -/
def winner (c : PropertyChain) (precedence : Precedence) (i : ℕ) (stored : Option Text) : Text :=
  match precedence with
  | .explicitWins => c.value c.last
  | .storeWins => stored.getD (c.value i)

/-- For the chunks behind it, what a chunk holds is as good as what the store had. -/
theorem winner_succ (precedence : Precedence) (i : ℕ) (stored : Option Text) :
    c.winner precedence (i + 1) (some (c.held precedence i stored)) =
      c.winner precedence i stored := by
  cases precedence <;> rfl

/-- In the last chunk nothing is given any more, and what it holds itself is the winner. -/
theorem winner_last (precedence : Precedence) (stored : Option Text) :
    c.winner precedence c.last stored = c.held precedence c.last stored := by
  cases precedence <;> rfl

/-- A text of the store that would win has no brackets. -/
def Presentable (precedence : Precedence) (stored : Option Text) : Prop :=
  ∀ t ∈ precedence.overriding stored, brackets.Plain t

/-- What is held is plain. -/
theorem plain_held {precedence : Precedence} {stored : Option Text} (hm : m ≤ c.last)
    (h : Presentable precedence stored) : brackets.Plain (c.held precedence m stored) := by
  rw [held]
  cases hstored : precedence.overriding stored with
  | none => exact (c.plain m hm).1
  | some t => exact h t hstored

/-- What is held can be presented further down. -/
theorem presentable_held {precedence : Precedence} {stored : Option Text} (hm : m ≤ c.last)
    (h : Presentable precedence stored) :
    Presentable precedence (some (c.held precedence m stored)) := by
  intro t ht
  cases precedence with
  | explicitWins => cases ht
  | storeWins =>
    obtain rfl := Option.some.inj ht
    exact plain_held hm h

/-- What wins is plain. -/
theorem plain_winner {precedence : Precedence} {stored : Option Text} (hm : m ≤ c.last)
    (h : Presentable precedence stored) : brackets.Plain (c.winner precedence m stored) := by
  cases precedence with
  | explicitWins => exact (c.plain c.last (Nat.le_refl _)).1
  | storeWins => exact plain_held hm h

/-! ### The calls -/

theorem givable_given (hm : m ≤ c.last) : ∀ entry ∈ (c.given m).entries, Givable entry :=
  List.forall_mem_singleton.2 ⟨c.word_key, (c.plain m hm).2⟩

theorem plain_call (hm : m ≤ c.last) : brackets.Plain (c.call m) :=
  plain_chunkCall false (c.word m hm).plain_brackets <| List.forall_mem_singleton.2
    ⟨⟨c.word_key, (c.plain m hm).2⟩, (c.plain m hm).1⟩

/-- A call is read as what it was written for. -/
theorem read_call (hm : m ≤ c.last) :
    ∃ raw, read (c.call m) = ⟨false, .chunk, c.name m, raw⟩ ∧
      (read (c.call m)).properties = c.given m := by
  obtain ⟨raw, hread, hproperties⟩ :=
    read_chunkCall false (chunkName_of_word (c.word m hm)) (givable_given hm)
  refine ⟨raw, hread, ?_⟩
  rw [TagSource.properties, call, hread]
  exact hproperties

/-- The calls of two chunks are two tags. -/
theorem tag_ne {i j : ℕ} (hi : i ≤ c.last) (hj : j ≤ c.last) (hij : i ≠ j) : c.tag i ≠ c.tag j := by
  intro htag
  obtain ⟨_, hread, -⟩ := read_call hi
  obtain ⟨_, hread', -⟩ := read_call hj
  rw [brackets.wrap_injective htag, hread'] at hread
  exact hij (c.distinct i hi j hj (congrArg TagSource.rawName hread).symm)

/-- No tag of the chain is among those above it. -/
theorem tag_notMem_tags (hm : m ≤ c.last) : c.tag m ∉ c.tags m := by
  intro hmem
  obtain ⟨i, hi, htag⟩ := List.mem_map.1 hmem
  rw [List.mem_range] at hi
  exact tag_ne (by omega) hm (by omega) htag

/-- The tag for the property calls no chunk. -/
theorem placeholder_ne_tag (i : ℕ) : brackets.wrap (placeholder false c.key) ≠ c.tag i :=
  fun htag ↦ placeholder_ne_call false false _ _ _ (brackets.wrap_injective htag)

theorem tags_succ (c : PropertyChain) (m : ℕ) : c.tags (m + 1) = c.tags m ++ [c.tag m] := by
  rw [tags, List.range_succ, List.map_append, List.map_singleton, tags]

/-- **What the store has in the content of a chunk** under the name of the property. -/
theorem text?_within (hm : m ≤ c.last) (store : Store) :
    Store.text? ((e.tagOf brackets store (c.call m)).storeWithin store) c.key =
      some (c.held e.options.precedence m (store.text? c.key)) := by
  obtain ⟨_, hread, hproperties⟩ := read_call hm
  have hkind : (read (c.call m)).kind = .chunk := by rw [hread]
  have hgiven : (c.given m).get? c.key = some (c.value m) := by
    rw [Properties.get?, given, Dict.lookup_cons, if_pos rfl]
  rw [Engine.text?_storeWithin hkind, hproperties, hgiven]
  rfl

/-- The context of a call that is below the calls before it, with a level for it, for the calls
behind it, and for the text of the property. -/
structure Reached (c : PropertyChain) (e : Engine) (m : ℕ) (ctx : Context) : Prop where
  resolving : ctx.resolving = c.tags m
  room : c.last + 1 < e.room ctx + m
  stays : ctx.removeUnprocessed = false

/-- **A call yields what the text of its chunk comes to**, with the property in the store. -/
theorem call_yields_of_bodyOf (hheld : c.HeldBy e) (hm : m ≤ c.last) (hreached : c.Reached e m ctx)
    {out : Text}
    (hbody : ∀ (below : Context) (within : Store), c.Reached e (m + 1) below →
      within.text? c.key = some (c.held e.options.precedence m (store.text? c.key)) →
        (e.bodyOf (c.tag m) below (c.text m)).Yields within (.ok out)) :
    (e.resolveInner brackets ctx (c.call m)).Yields store (.ok (some out)) := by
  obtain ⟨_, hread, -⟩ := read_call hm
  have hnew : c.tag m ∉ ctx.resolving := hreached.resolving ▸ tag_notMem_tags hm
  have hroom := hreached.room
  have htext : c.text m ≠ [] := by
    rw [text]
    split <;> simp [tag, wrap, brackets]
  refine Engine.resolve_chunk_yields (head?_call false _ _)
    (Engine.plain_arguments_yield separate_brackets (plain_call hm) _) hread
    (splitName_word (c.word m hm)) (fun h ↦ absurd h Bool.false_ne_true) (hheld.chunk m hm) hnew
    (by omega) (fun hnil ↦ absurd hnil htext) fun below hresolving hlevels _ hremove ↦ ?_
  refine hbody below _ ⟨?_, by omega, hremove.trans hreached.stays⟩ (text?_within hm store)
  rw [hresolving, hreached.resolving, c.tags_succ]
  rfl

/-- The last chunk comes to what the property is there. -/
theorem bodyOf_last_yields (hheld : c.HeldBy e) {below : Context} {within : Store} {t : Text}
    (hreached : c.Reached e (c.last + 1) below) (ht : within.text? c.key = some t)
    (hplain : brackets.Plain t) :
    (e.bodyOf (c.tag c.last) below (c.text c.last)).Yields within (.ok t) := by
  have hroom := hreached.room
  have hlookup : e.lookup within c.key = some t := by rw [Engine.lookup, ht]
  have hnew : brackets.wrap (placeholder false c.key) ∉ below.resolving := by
    rw [hreached.resolving]
    intro hmem
    obtain ⟨i, -, htag⟩ := List.mem_map.1 hmem
    exact placeholder_ne_tag i htag.symm
  have hcomes : (Search.mk brackets (c.tag c.last) []).Comes below within
      (e.resolveInner brackets below) (placeholder false c.key) (some t) := by
    rw [← hlookup]
    exact Engine.comes_placeholder separate_brackets hheld.delimiters c.word_key
      (plain_placeholder false c.word_key) hreached.stays (placeholder_ne_tag c.last) hnew
      (by omega) fun value hvalue ↦ Option.some.inj (hlookup.symm.trans hvalue) ▸ hplain
  rw [text, if_neg (Nat.lt_irrefl _)]
  exact Engine.bodyOf_yields_wrap separate_brackets hheld.delimiters hreached.stays
    (plain_placeholder false c.word_key) hcomes.goes fun out hout ↦ Except.ok.inj hout ▸ hplain

/-- Any other chunk comes to what the call of the next one comes to. -/
theorem bodyOf_yields (hheld : c.HeldBy e) (hm : m < c.last) {below : Context} {within : Store}
    {t : Text} (hreached : c.Reached e (m + 1) below) (hplain : brackets.Plain t)
    (hcall : (e.resolveInner brackets below (c.call (m + 1))).Yields within (.ok (some t))) :
    (e.bodyOf (c.tag m) below (c.text m)).Yields within (.ok t) := by
  have hgoes : (Search.mk brackets (c.tag m) []).Goes below within (e.resolveInner brackets below)
      (c.call (m + 1)) (.ok t) := by
    have htag : brackets.wrap (c.call (m + 1)) ≠ c.tag m :=
      tag_ne hm (Nat.le_of_lt hm) (Nat.succ_ne_self m)
    rw [Search.Goes, call, chunkCall, Search.triage_call, ← chunkCall, ← call, if_neg htag]
    exact hcall
  rw [text, if_pos hm]
  exact Engine.bodyOf_yields_wrap separate_brackets hheld.delimiters hreached.stays
    (plain_call hm) hgoes fun out hout ↦ Except.ok.inj hout ▸ hplain

/-- **What a call comes to below the calls before it** depends on the store only through the text
under the name of the property. -/
theorem call_yields (hheld : c.HeldBy e) (hm : m ≤ c.last) (hreached : c.Reached e m ctx)
    (hstored : Presentable e.options.precedence (store.text? c.key)) :
    (e.resolveInner brackets ctx (c.call m)).Yields store
      (.ok (some (c.winner e.options.precedence m (store.text? c.key)))) := by
  -- From the last chunk upwards: the induction is on the number of chunks behind this one.
  induction hn : c.last - m generalizing m ctx store with
  | zero =>
    obtain rfl : m = c.last := by omega
    refine call_yields_of_bodyOf hheld hm hreached fun below within hbelow hwithin ↦ ?_
    rw [winner_last]
    exact bodyOf_last_yields hheld hbelow hwithin (plain_held hm hstored)
  | succ n ih =>
    have hlt : m < c.last := by omega
    refine call_yields_of_bodyOf hheld hm hreached fun below within hbelow hwithin ↦ ?_
    have hnext := presentable_held hm hstored
    rw [← hwithin] at hnext
    have hcall := ih hlt hbelow hnext (by omega)
    rw [hwithin, winner_succ] at hcall
    exact bodyOf_yields hheld hlt hbelow (plain_winner hm hstored) hcall

/-- **One end of the chain wins.** Where properties win over the store, the call of the first chunk
comes to the text that is given to the last one, whatever the store has. Where the store wins, it
comes to the text that the store has under the name, if it has one, and otherwise to the text that
is given to the first chunk. -/
theorem process_eq_winner (hheld : c.HeldBy e) (s : State) :
    (e.options.precedence = .explicitWins →
      (e.process (c.tag 0) s).1 = .ok (c.value c.last)) ∧
    (e.options.precedence = .storeWins → (∀ t, s.store.text? c.key = some t → brackets.Plain t) →
      (e.process (c.tag 0) s).1 = .ok ((s.store.text? c.key).getD (c.value 0))) := by
  have hreached : c.Reached e 0 e.fullContext := by
    refine ⟨rfl, ?_, rfl⟩
    have hlevels := hheld.levels
    have hlimit : e.nestingLimit e.fullContext = e.options.maxNesting := ite_self _
    rw [Engine.room, hlimit]
    exact hlevels
  have hwins (hstored : Presentable e.options.precedence (s.store.text? c.key)) :
      (e.process (c.tag 0) s).1 =
        .ok (c.winner e.options.precedence 0 (s.store.text? c.key)) := by
    have hzero : 0 ≤ c.last := Nat.zero_le _
    have htags : brackets.tags (c.winner e.options.precedence 0 (s.store.text? c.key)) = [] :=
      separate_brackets.tags_plain (plain_winner hzero hstored)
    refine Engine.process_of_single hheld.delimiters (separate_brackets.scan_wrap (plain_call hzero))
      (head?_call false _ _) (call_yields hheld hzero hreached hstored) fun inner hinner ↦ ?_
    exact absurd (htags ▸ hinner) List.not_mem_nil
  constructor
  · intro hprecedence
    rw [hprecedence] at hwins
    exact hwins fun t ht ↦ absurd ht (Option.not_mem_none t)
  · intro hprecedence hplain
    rw [hprecedence] at hwins
    exact hwins hplain

/-- Three chunks in a row, each of which is given a text with its number. -/
def relay : PropertyChain where
  last := 2
  name i := 'c' :: Text.ofNat i
  key := ['k']
  value i := 'v' :: Text.ofNat i
  word := by decide
  distinct := by decide
  word_key := by decide
  plain := by decide

/-- An engine that has the three chunks in memory. -/
def relaying (precedence : Precedence) (limit : ℕ) : Engine where
  options := { precedence, maxNesting := limit }
  chunks := .ofDict (.ofList ((List.range 3).map fun i ↦ (relay.name i, relay.text i)))

theorem relaying_holds (precedence : Precedence) {limit : ℕ}
    (h : 3 < if limit = 0 then 4096 else limit) : relay.HeldBy (relaying precedence limit) where
  delimiters := rfl
  chunk i hi := by
    obtain rfl | rfl | rfl : i = 0 ∨ i = 1 ∨ i = 2 := by
      have hi : i ≤ 2 := hi
      omega
    · rfl
    · rfl
    · rfl
  levels := h

/-- The same three chunks under both precedences, without a text of the name and with one, and with
no more levels than are needed and without a limit. -/
theorem relaying_processes :
    let start (precedence : Precedence) (limit : ℕ) (store : Store) :=
      ((relaying precedence limit).process "[[$c0? &k=`v0`]]".toList { store }).1
    let stored : Store := Dict.insert .empty ['k'] (.str "own".toList)
    start .explicitWins 0 stored = .ok "v2".toList ∧
      start .explicitWins 4 .empty = .ok "v2".toList ∧
      start .storeWins 0 stored = .ok "own".toList ∧
      start .storeWins 4 .empty = .ok "v0".toList := by
  intro start stored
  have hfour (precedence : Precedence) : relay.HeldBy (relaying precedence 4) :=
    relaying_holds precedence (by decide)
  have hnone (precedence : Precedence) : relay.HeldBy (relaying precedence 0) :=
    relaying_holds precedence (by decide)
  have hstored : stored.text? ['k'] = some "own".toList := by decide
  have hown : ∀ t, stored.text? relay.key = some t → brackets.Plain t := by
    intro t ht
    rw [← Option.some.inj (hstored.symm.trans ht)]
    decide
  refine ⟨?_, ?_, ?_, ?_⟩
  · exact (process_eq_winner (hnone .explicitWins) { store := stored }).1 rfl
  · exact (process_eq_winner (hfour .explicitWins) { store := .empty }).1 rfl
  · exact (process_eq_winner (hnone .storeWins) { store := stored }).2 rfl hown
  · exact (process_eq_winner (hfour .storeWins) { store := .empty }).2 rfl fun t ht ↦ nomatch ht

end PropertyChain

end TagTemplate
