import TagTemplate.Proofs.Evaluation
import TagTemplate.Proofs.Lookup

/-!
# Chunks and their properties

A chunk is called with properties, and its text has placeholder tags for them. While the text is
resolved, the properties are placeholders (`Engine.text?_storeWithin`); so a tag for one of them
yields its value, unless it has to wait: an uncacheable tag in the text of a chunk that was called
by a cacheable tag is left alone. By the time the caller resolves it, the properties are taken back
and nothing has its name any more, so it stays for good (`Engine.properties_reach_slots`).

Both ends of this are by design. What a cacheable tag holds must not depend on uncacheable tags, and
the properties of a chunk are placeholders for its text and for nothing else.
-/

namespace TagTemplate

open Run Delimiters TagSource

/-! ### Properties as placeholders -/

/-- What a property has in the place of its own text where the store has the given one. -/
def Precedence.overriding (precedence : Precedence) (stored : Option Text) : Option Text :=
  match precedence with
  | storeWins => stored
  | explicitWins => none

namespace Engine

variable {e : Engine} {d : Delimiters} {store : Store} {ctx : Context}

/-- **The properties in effect** are the ones that are given, with the texts of the store in the
place of their own where the precedence says so. -/
theorem get?_properties_tagOf (inner key : Text) :
    (e.tagOf d store inner).properties.get? key = ((read inner).properties.get? key).map
      (e.options.precedence.overriding (store.text? key)).getD := by
  let given := (read inner).properties
  let stored (key : Text) : Option Text := e.options.precedence.overriding (store.text? key)
  have hproperties : (e.tagOf d store inner).properties = .ofList
      (given.entries.map fun entry ↦ (entry.1, (stored entry.1).getD entry.2)) := by
    show Properties.ofList ((Properties.ofList given.entries).entries.map
      fun entry ↦ (entry.1, (stored entry.1).getD entry.2)) = _
    rw [Properties.ofList_entries]
  have hdistinct : ((given.entries.map fun entry ↦ (entry.1, (stored entry.1).getD entry.2)).map
      (·.1)).Nodup := by
    rw [List.map_map]
    exact given.distinct
  rw [hproperties, Properties.get?, Properties.entries_ofList hdistinct,
    Dict.lookup_map fun key value ↦ (stored key).getD value]
  rfl

/-- **The properties of a chunk are placeholders in its content**, and hide what the store has under
their names. -/
theorem text?_storeWithin {inner : Text} (hkind : (read inner).kind = .chunk) (key : Text) :
    Store.text? ((e.tagOf d store inner).storeWithin store) key =
      (((read inner).properties.get? key).map
        (e.options.precedence.overriding (store.text? key)).getD).or (store.text? key) := by
  have hchunk : (e.tagOf d store inner).kind = .chunk := hkind
  rw [Tag.storeWithin, hchunk]
  show Store.text? (store.writeProperties (e.tagOf d store inner).properties).1 key = _
  rw [Store.text?_writeProperties, get?_properties_tagOf]

/-- Under a name that the store does not have, the placeholder is the property as it is given. -/
theorem text?_storeWithin_of_none {inner key : Text} (hkind : (read inner).kind = .chunk)
    (h : store.text? key = none) :
    Store.text? ((e.tagOf d store inner).storeWithin store) key =
      (read inner).properties.get? key := by
  have hnone : e.options.precedence.overriding none = none := by
    cases e.options.precedence <;> rfl
  rw [text?_storeWithin hkind, h, hnone, Option.or_none]
  exact congrFun Option.map_id _

/-! ### Default options -/

section Default

variable (h : e.options = .default)
include h

theorem delimiters_of_default : e.options.delimiters = brackets := by rw [h]; rfl

/-- A name that is not stored as written is looked up behind the site prefix. -/
theorem lookup_of_default (store : Store) (key : Text) :
    e.lookup store key = (store.text? key).or (store.text? ('+' :: key)) := by
  have hprefix : e.options.sitePrefix = ['+'] := by rw [h]; rfl
  rw [lookup, hprefix]
  cases store.text? key <;> rfl

/-- From the outermost context, there is room for as many levels as the default options allow. -/
theorem room_fullContext : e.room e.fullContext = 100 := by
  obtain ⟨options, chunks⟩ := e
  obtain rfl : options = .default := h
  rfl

theorem room_fullContext_pos : 0 < e.room e.fullContext := by
  rw [room_fullContext h]
  exact Nat.succ_pos _

end Default

/-! ### Calls -/

/-- **A call of a chunk yields** what the text of the chunk comes to, with the properties as
placeholders. -/
theorem resolve_chunk_yields {outer inner resolved name body out : Text} {marked : Bool}
    {raw : Option Text} {count : ℕ} (hcomment : inner.head? ≠ some '-')
    (hargs : ((Search.mk d outer []).pass ctx.forArguments inner
      fun nested _ ↦ e.resolveInner d ctx.forArguments nested).Yields store (.ok (resolved, count)))
    (hread : read resolved = ⟨marked, .chunk, name, raw⟩)
    (hname : FilterChain.splitName name = (name, []))
    (hallowed : marked = true → ctx.processUncacheable = true)
    (hbody : e.chunks name = .ok body) (hnew : d.wrap resolved ∉ ctx.resolving)
    (hroom : 0 < e.room ctx) (hempty : body = [] → out = [])
    (hyields : ∀ below : Context, below.resolving = ctx.resolving ++ [d.wrap resolved] →
      e.room below + 1 = e.room ctx → below.processUncacheable = marked →
      below.removeUnprocessed = ctx.removeUnprocessed →
        (e.bodyOf (d.wrap resolved) below body).Yields
          ((e.tagOf d store resolved).storeWithin store) (.ok out)) :
    (e.resolve d ctx outer inner).Yields store (.ok (some out)) := by
  let source := read resolved
  have hnewBelow : d.wrap resolved ∉ (ctx.forSource source).resolving := hnew
  have hroomBelow : 0 < e.room (ctx.forSource source) := hroom
  -- One level deeper, all that the content depends on is as the caller has it.
  obtain ⟨below, hentered, hresolving, hlevels, hcacheable, hremove⟩ :=
    enterContent_of_room hnewBelow hroomBelow
  -- Uncacheable tags are resolved in the content of a marked call only.
  have hmarked : below.processUncacheable = marked := by
    rw [hcacheable]
    show (ctx.processUncacheable && (read resolved).uncacheable) = marked
    rw [hread]
    cases marked with
    | false => exact Bool.and_false _
    | true => rw [hallowed rfl]; rfl
  have hout : (e.bodyOf (d.wrap resolved) below body).Yields
      ((e.tagOf d store resolved).storeWithin store) (.ok out) :=
    hyields below hresolving hlevels hmarked hremove
  exact resolve_call_yields hcomment hargs hread hname hallowed hbody
    (fun hnil ↦ congrArg _ (hempty hnil)) (fun _ _ herror ↦ nomatch hentered.symm.trans herror)
    fun _ below' hbelow ↦ Except.ok.inj (hentered.symm.trans hbelow) ▸ hout

/-- **A content that is one tag** is resolved to the output of the tag, if there is nothing left to
do for the tags in that. -/
theorem process_of_single {content inner out : Text} {s : State}
    (hdelimiters : e.options.delimiters = .brackets)
    (hscan : brackets.scan content = [.plain [], .tag inner, .plain []])
    (hcomment : inner.head? ≠ some '-')
    (hresolve : (e.resolveInner brackets e.fullContext inner).Yields s.store (.ok (some out)))
    (hleft : ∀ inner ∈ brackets.tags out, (Search.mk brackets [] []).Comes e.fullContext s.store
      (e.resolveInner brackets e.fullContext) inner none) :
    (e.process content s).1 = .ok out := by
  let search : Search := ⟨brackets, [], []⟩
  let output (_ : Text) : Text := out
  have hcomes (other : Text) (hother : other ∈ search.delimiters.tags content) :
      search.Comes e.fullContext s.store (e.resolveInner brackets e.fullContext) other
        (some (output other)) := by
    have htags : search.delimiters.tags content = [inner] := congrArg (List.filterMap _) hscan
    rw [htags] at hother
    obtain rfl := List.mem_singleton.1 hother
    rw [Search.Comes, Search.triage_of_all rfl rfl rfl separate_brackets, if_neg hcomment]
    exact hresolve
  obtain ⟨count, hfirst⟩ := Search.pass_yields_scan separate_brackets rfl hcomes
  have hout : (brackets.scan content).flatMap (Piece.filled output) = out := by
    rw [hscan]
    simp [output]
  rw [hout] at hfirst
  have hfixed : (search.pass e.fullContext out fun inner _ ↦
      e.resolveInner brackets e.fullContext inner).Yields s.store (.ok (out, 0)) :=
    Search.pass_yields_self rfl hleft
  obtain ⟨total, hpasses⟩ := Search.passes_yields hfirst hfixed (e.options.maxIterations - 1)
  exact process_of_yields hdelimiters hpasses

end Engine

/-! ### Texts with tags for properties -/

/-- A part of the text of a chunk: a text without tags, or a placeholder tag. -/
inductive ChunkPart
  | text (t : Text)
  | slot (uncacheable : Bool) (key : Text)
deriving DecidableEq, Repr

namespace ChunkPart

/-- The part as a piece of content. -/
def piece : ChunkPart → Piece
  | text t => .plain t
  | slot uncacheable key => .tag (placeholder uncacheable key)

/-- The text of a chunk with the given parts. -/
def body (parts : List ChunkPart) : Text := Piece.unite brackets (parts.map piece)

/-- What becomes of the part when the chunk is called, by a tag marked as uncacheable or not: the
value of its property; but in a cacheable call an uncacheable tag stays. -/
def filled (marked : Bool) (p : Properties) : ChunkPart → Text
  | text t => t
  | slot uncacheable key =>
    if uncacheable && !marked then brackets.wrap (placeholder uncacheable key)
    else (p.get? key).getD []

/-- The part has no brackets of its own, and its tag is for one of the properties. -/
def Fits (p : Properties) : ChunkPart → Prop
  | text t => brackets.Plain t
  | slot _ key => key ∈ p.entries.map (·.1)

/-- Whether a part fits can be computed. -/
instance (p : Properties) : (part : ChunkPart) → Decidable (part.Fits p)
  | text t => inferInstanceAs (Decidable (brackets.Plain t))
  | slot _ key => inferInstanceAs (Decidable (key ∈ p.entries.map (·.1)))

/-- What a tag for a property comes to in the text of a chunk. -/
def answer (marked : Bool) (p : Properties) (inner : Text) : Option Text :=
  if (read inner).uncacheable && !marked then none else p.get? (read inner).rawName

/-- An empty text has nothing to be filled. -/
theorem flatMap_filled_eq_nil (marked : Bool) (p : Properties) {parts : List ChunkPart}
    (h : body parts = []) : parts.flatMap (filled marked p) = [] := by
  rw [body, Piece.unite, List.flatMap_map, List.flatMap_eq_nil_iff] at h
  refine List.flatMap_eq_nil_iff.2 fun part hpart ↦ ?_
  have hwritten := h part hpart
  cases part with
  | text t => exact hwritten
  | slot uncacheable key =>
    have hwrap : brackets.wrap (placeholder uncacheable key) = [] := hwritten
    simp [wrap, brackets] at hwrap

end ChunkPart

/-- A chunk that has a text made of parts, and properties for these parts: what can be written into
the call is written, and the store has none of the names. -/
structure ChunkCall (e : Engine) (store : Store) (name : Text) (parts : List ChunkPart)
    (p : Properties) : Prop where
  options : e.options = .default
  chunkName : ChunkName name
  plain_name : brackets.Plain name
  chunk : e.chunks name = .ok (ChunkPart.body parts)
  fits : ∀ part ∈ parts, part.Fits p
  givable : ∀ entry ∈ p.entries, Givable entry
  plain_value : ∀ entry ∈ p.entries, brackets.Plain entry.2
  not_stored : ∀ entry ∈ p.entries, store.get? entry.1 = none ∧ store.get? ('+' :: entry.1) = none

namespace ChunkCall

variable {e : Engine} {store : Store} {name : Text} {parts : List ChunkPart} {p : Properties}
  (h : ChunkCall e store name parts p)
include h

theorem delimiters_eq : e.options.delimiters = brackets :=
  Engine.delimiters_of_default h.options

/-- The property of a tag in the text of the chunk. -/
theorem exists_of_slot {uncacheable : Bool} {key : Text}
    (hslot : .slot uncacheable key ∈ parts) :
    ∃ value, p.get? key = some value ∧ (key, value) ∈ p.entries := by
  obtain ⟨entry, hentry, rfl⟩ := List.mem_map.1 (h.fits _ hslot)
  obtain ⟨value, hvalue⟩ := Option.isSome_iff_exists.1 (Dict.isSome_lookup_of_mem hentry)
  exact ⟨value, hvalue, Dict.mem_of_lookup hvalue⟩

theorem word_of_slot {uncacheable : Bool} {key : Text} (hslot : .slot uncacheable key ∈ parts) :
    key.Word := by
  obtain ⟨value, -, hentry⟩ := h.exists_of_slot hslot
  exact (h.givable _ hentry).word

/-- No piece of the chunk has a bracket within. -/
theorem flat : ∀ piece ∈ parts.map ChunkPart.piece, piece.Flat brackets := by
  intro piece hpiece
  obtain ⟨part, hpart, rfl⟩ := List.mem_map.1 hpiece
  cases part with
  | text t => exact h.fits _ hpart
  | slot uncacheable key => exact plain_placeholder uncacheable (h.word_of_slot hpart)

omit h in
/-- The tags of the chunk are its slots. -/
theorem exists_of_mem_tags {inner : Text}
    (hinner : inner ∈ (parts.map ChunkPart.piece).filterMap Piece.inner?) :
    ∃ uncacheable key, .slot uncacheable key ∈ parts ∧ inner = placeholder uncacheable key := by
  obtain ⟨piece, hpiece, hinner⟩ := List.mem_filterMap.1 hinner
  obtain ⟨part, hpart, rfl⟩ := List.mem_map.1 hpiece
  cases part with
  | text t => cases hinner
  | slot uncacheable key => exact ⟨uncacheable, key, hpart, (Option.some.inj hinner).symm⟩

/-- What a slot comes to: nothing if it has to wait, and else the property of its key. -/
theorem answer_slot (marked : Bool) {uncacheable : Bool} {key : Text}
    (hslot : .slot uncacheable key ∈ parts) :
    ChunkPart.answer marked p (placeholder uncacheable key) =
      if uncacheable && !marked then none else p.get? key := by
  rw [ChunkPart.answer, read_placeholder uncacheable (h.word_of_slot hslot)]

/-- What a slot comes to has no brackets. -/
theorem plain_answer {marked : Bool} {inner output : Text}
    (hinner : inner ∈ (parts.map ChunkPart.piece).filterMap Piece.inner?)
    (houtput : ChunkPart.answer marked p inner = some output) : brackets.Plain output := by
  obtain ⟨uncacheable, key, hslot, rfl⟩ := exists_of_mem_tags hinner
  obtain ⟨value, hvalue, hentry⟩ := h.exists_of_slot hslot
  rw [h.answer_slot marked hslot] at houtput
  split at houtput
  · cases houtput
  · rw [hvalue, Option.some.injEq] at houtput
    exact houtput ▸ h.plain_value _ hentry

/-- The pieces of the text settle to what is filled in. -/
theorem unite_settle (marked : Bool) :
    Piece.unite brackets ((parts.map ChunkPart.piece).map
      (Piece.settle (ChunkPart.answer marked p))) = parts.flatMap (ChunkPart.filled marked p) := by
  rw [Piece.unite, List.flatMap_map, List.flatMap_map]
  refine List.flatMap_congr fun part hpart ↦ ?_
  cases part with
  | text t => rfl
  | slot uncacheable key =>
    obtain ⟨value, hvalue, -⟩ := h.exists_of_slot hpart
    rw [ChunkPart.piece, Piece.settle, h.answer_slot marked hpart, ChunkPart.filled, hvalue]
    cases uncacheable && !marked <;> rfl

theorem plain_chunkCall (marked : Bool) : brackets.Plain (chunkCall marked name p) :=
  TagSource.plain_chunkCall marked h.plain_name fun entry hentry ↦
    ⟨h.givable entry hentry, h.plain_value entry hentry⟩

/-- Outside of the call, the keys of its properties are not stored. -/
theorem text?_eq_none {entry : Text × Text} (hentry : entry ∈ p.entries) :
    store.text? entry.1 = none ∧ store.text? ('+' :: entry.1) = none := by
  obtain ⟨hname, hprefixed⟩ := h.not_stored _ hentry
  rw [Store.text?, Store.text?, hname, hprefixed]
  exact ⟨rfl, rfl⟩

/-- **The text of the chunk**, with the properties as placeholders. -/
theorem bodyOf_yields {marked : Bool} {below : Context} {within : Store}
    (hresolving : below.resolving = [brackets.wrap (chunkCall marked name p)])
    (hroom : 0 < e.room below) (hcacheable : below.processUncacheable = marked)
    (hremove : below.removeUnprocessed = false)
    (hwithin : ∀ entry ∈ p.entries, Store.text? within entry.1 = p.get? entry.1) :
    (e.bodyOf (brackets.wrap (chunkCall marked name p)) below (ChunkPart.body parts)).Yields within
      (.ok (parts.flatMap (ChunkPart.filled marked p))) := by
  rw [← h.unite_settle marked]
  refine Engine.bodyOf_yields separate_brackets h.delimiters_eq hremove h.flat fun inner hinner ↦ ?_
  obtain ⟨uncacheable, key, hslot, rfl⟩ := exists_of_mem_tags hinner
  obtain ⟨value, hvalue, hentry⟩ := h.exists_of_slot hslot
  have hplain : brackets.Plain value := h.plain_value _ hentry
  have hlookup : e.lookup within key = some value := by
    rw [Engine.lookup_of_default h.options, hwithin _ hentry, hvalue, Option.some_or]
  have hne : brackets.wrap (placeholder uncacheable key) ≠
      brackets.wrap (chunkCall marked name p) := fun heq ↦
    placeholder_ne_call uncacheable marked key name _ (brackets.wrap_injective heq)
  have hnew : brackets.wrap (placeholder uncacheable key) ∉ below.resolving := by
    rw [hresolving]
    exact fun hmem ↦ hne (List.mem_singleton.1 hmem)
  have hcomes := Engine.comes_placeholder separate_brackets h.delimiters_eq
    (h.word_of_slot hslot) (plain_placeholder uncacheable (h.word_of_slot hslot)) hremove hne hnew
    hroom fun value' hvalue' ↦ by
      rw [hlookup, Option.some.injEq] at hvalue'
      exact hvalue' ▸ hplain
  refine ⟨?_, fun output ↦ h.plain_answer hinner⟩
  rw [h.answer_slot marked hslot, hvalue]
  rw [hcacheable, hlookup] at hcomes
  exact hcomes

/-- **The call of the chunk**, below no tag. -/
theorem resolve_yields {marked : Bool} :
    (e.resolveInner brackets e.fullContext (chunkCall marked name p)).Yields store
      (.ok (some (parts.flatMap (ChunkPart.filled marked p)))) := by
  obtain ⟨raw, hread, hraw⟩ := read_chunkCall marked h.chunkName h.givable
  have hproperties : (read (chunkCall marked name p)).properties = p := by
    rw [TagSource.properties, hread]
    exact hraw
  refine Engine.resolve_chunk_yields (head?_call marked name _)
    (Engine.plain_arguments_yield separate_brackets (h.plain_chunkCall marked) _) hread
    h.chunkName.splitName_eq (fun _ ↦ rfl) h.chunk List.not_mem_nil
    (Engine.room_fullContext_pos h.options) (ChunkPart.flatMap_filled_eq_nil marked p)
    fun below hresolving hlevels hcacheable hremove ↦ ?_
  have hroom : 0 < e.room below := by
    rw [Engine.room_fullContext h.options] at hlevels
    omega
  refine h.bodyOf_yields hresolving hroom hcacheable hremove fun entry hentry ↦ ?_
  have hkind : (read (chunkCall marked name p)).kind = .chunk := by rw [hread]
  rw [Engine.text?_storeWithin_of_none hkind (h.text?_eq_none hentry).1, hproperties]

/-- An uncacheable tag that was left in place stays there. -/
theorem comes_left {marked : Bool} {inner : Text}
    (hinner : inner ∈ brackets.tags (parts.flatMap (ChunkPart.filled marked p))) :
    (Search.mk brackets [] []).Comes e.fullContext store (e.resolveInner brackets e.fullContext)
      inner none := by
  rw [← h.unite_settle marked] at hinner
  obtain ⟨hinner, hnone⟩ := Search.mem_of_mem_tags_settle separate_brackets h.flat
    (fun inner hinner output ↦ h.plain_answer hinner) hinner
  obtain ⟨uncacheable, key, hslot, rfl⟩ := exists_of_mem_tags hinner
  obtain ⟨value, -, hentry⟩ := h.exists_of_slot hslot
  obtain ⟨hname, hprefixed⟩ := h.text?_eq_none hentry
  -- The name is not a placeholder any more, neither as written nor behind the prefix.
  have hlookup : e.lookup store key = none := by
    rw [Engine.lookup_of_default h.options, hname, hprefixed, Option.none_or]
  have hne : brackets.wrap (placeholder uncacheable key) ≠ [] := by simp [wrap, brackets]
  have hvalue (value : Text) (hvalue : e.lookup store key = some value) :
      brackets.Plain value := by
    rw [hlookup] at hvalue
    cases hvalue
  have hcomes := Engine.comes_placeholder separate_brackets h.delimiters_eq
    (h.word_of_slot hslot) (plain_placeholder uncacheable (h.word_of_slot hslot)) rfl hne
    List.not_mem_nil (Engine.room_fullContext_pos h.options) hvalue
  rw [hlookup, ite_self] at hcomes
  exact hcomes

/-- The scan finds the call and nothing around it. -/
theorem scan_call (marked : Bool) : brackets.scan (brackets.wrap (chunkCall marked name p)) =
    [.plain [], .tag (chunkCall marked name p), .plain []] :=
  separate_brackets.scan_wrap (h.plain_chunkCall marked)

end ChunkCall

namespace Engine

/-- **The properties of a chunk reach the tags for them.** A call of a chunk is resolved to the text
of the chunk in which each cacheable placeholder tag is replaced by the value of its property. An
uncacheable tag is replaced as well if the call is marked as uncacheable; if it is not, the tag
stays as it is. -/
theorem properties_reach_slots {e : Engine} {s : State} {name : Text} {parts : List ChunkPart}
    {p : Properties} (h : ChunkCall e s.store name parts p) (marked : Bool) :
    (e.process (brackets.wrap (chunkCall marked name p)) s).1 =
      .ok (parts.flatMap (ChunkPart.filled marked p)) :=
  process_of_single h.delimiters_eq (h.scan_call marked) (head?_call marked name _)
    h.resolve_yields fun _ ↦ h.comes_left

/-- An engine with a chunk that has a cacheable and an uncacheable tag. -/
def mixed : Engine where
  options := {}
  chunks name :=
    if name = ['c'] then .ok "a[[+k]]b[[!+k]]".toList
    else ChunkSource.missing name

/-- The parts of its text. -/
def mixedParts : List ChunkPart :=
  [.text ['a'], .slot false ['k'], .text ['b'], .slot true ['k']]

/-- The property that it is called with. -/
def mixedProperties : Properties := ⟨[(['k'], ['v'])], by decide⟩

theorem mixed_call : ChunkCall mixed .empty ['c'] mixedParts mixedProperties where
  options := rfl
  chunkName := chunkName_of_word (by decide)
  plain_name := by decide
  chunk := rfl
  fits := by decide
  givable := by decide
  plain_value := by decide
  not_stored := by decide

/-- A cacheable call fills the cacheable slot only. -/
theorem mixed_filled :
    ChunkCall mixed .empty ['c'] mixedParts mixedProperties ∧
      (mixed.process "[[$c? &k=`v`]]".toList { store := .empty }).1 =
        .ok "avb[[!+k]]".toList ∧
      (mixed.process "[[!$c? &k=`v`]]".toList { store := .empty }).1 = .ok "avbv".toList := by
  refine ⟨mixed_call, ?_, ?_⟩
  · exact properties_reach_slots (s := { store := .empty }) mixed_call false
  · exact properties_reach_slots (s := { store := .empty }) mixed_call true

/-- **Not every tag is replaced**: in the cacheable call, the uncacheable one is left. -/
theorem mixed_not_filled :
    ChunkCall mixed .empty ['c'] mixedParts mixedProperties ∧
      (mixed.process "[[$c? &k=`v`]]".toList { store := .empty }).1 ≠
        .ok (mixedParts.flatMap (ChunkPart.filled true mixedProperties)) := by
  have hrun : (mixed.process (brackets.wrap (chunkCall false ['c'] mixedProperties))
      { store := .empty }).1 =
        .ok (mixedParts.flatMap (ChunkPart.filled false mixedProperties)) :=
    process_of_single rfl (mixed_call.scan_call false) (head?_call _ _ _)
      mixed_call.resolve_yields fun _ ↦ mixed_call.comes_left
  refine ⟨mixed_call, fun hfilled ↦ ?_⟩
  have hsame := Except.ok.inj (hrun.symm.trans hfilled)
  revert hsame
  decide

end Engine

end TagTemplate
