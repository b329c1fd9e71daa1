import TagTemplate.Proofs.ChunkProperties
import TagTemplate.Proofs.HarmlessText
import TagTemplate.Proofs.TokenScan

/-!
# Data in the arguments of a tag

The tags in the arguments of a tag are resolved before the tag is read, and their outputs are put
into its text as they are. So when the value of a property comes from a placeholder, the reader of
the tag cannot tell data from what was written around it: it cuts at question marks, ampersands,
equal signs and semicolons, and reads doubled quotes as single ones, whoever wrote them. This is by
design, since a nested tag may yield any part of a tag; nothing is quoted on its way.

What comes out is the data itself exactly when it is harmless (`Text.Harmless`). If it is, each step
of the reader finds what it would find for a plain word (`parse_spliced`). If it is not, some step
cuts, and no value has the delimiter that was cut at (`harmless_of_value`).
-/

namespace TagTemplate

open Run Delimiters TagSource

/-! ### Values are parts of the property string -/

namespace Definition

/-- A value that has only one part is taken as it is, and otherwise the text is one of the parts. -/
theorem value_ofLegacy_cases (name raw : Text) :
    (raw.split ';').length < 2 ∧ ofLegacy name raw = plain name raw ∨
      (ofLegacy name raw).value ∈ raw.split ';' := by
  rw [ofLegacy]
  split
  · rename_i description type rest hsplit
    rw [hsplit]
    right
    split <;> simp
  · rename_i hshort
    refine .inl ⟨?_, rfl⟩
    rcases hsplit : raw.split ';' with - | ⟨description, - | ⟨type, rest⟩⟩
    · exact Nat.two_pos
    · exact Nat.one_lt_two
    · exact absurd hsplit (hshort description type rest)

/-- The value of the legacy form is a part of what was written. -/
theorem value_ofLegacy_sublist (name raw : Text) : (ofLegacy name raw).value.Sublist raw := by
  rcases value_ofLegacy_cases name raw with ⟨-, hplain⟩ | hpart
  · rw [hplain]
    exact List.Sublist.refl raw
  · exact Text.sublist_of_mem_split hpart

/-- What a definition was read from. -/
theorem exists_of_mem_parse {source : Text} {definition : Definition}
    (h : definition ∈ parse source) :
    ∃ segment ∈ source.split '&', ∃ name raw, segment.split '=' = [name, raw] ∧
      definition.name = (ofLegacy (cleanName name) raw).name ∧
      definition.value = (ofLegacy (cleanName name) raw).value.unquote := by
  obtain ⟨segment, hsegment, hread⟩ := List.mem_filterMap.1 h
  rw [ofSegment?] at hread
  split at hread
  · rename_i name raw hsplit
    obtain rfl := Option.some.inj hread
    exact ⟨segment, hsegment, name, raw, hsplit, rfl, rfl⟩
  · cases hread

/-- A value that is read is a part of its source. -/
theorem value_sublist {source : Text} {definition : Definition} (h : definition ∈ parse source) :
    definition.value.Sublist source := by
  obtain ⟨segment, hsegment, name, raw, hsplit, -, hvalue⟩ := exists_of_mem_parse h
  have hraw : raw ∈ segment.split '=' := by rw [hsplit]; simp
  rw [hvalue]
  exact (Text.unquote_sublist _).trans <| (value_ofLegacy_sublist _ raw).trans <|
    (Text.sublist_of_mem_split hraw).trans (Text.sublist_of_mem_split hsegment)

end Definition

namespace Properties

/-- A property is one of the pairs that were set. -/
theorem mem_of_get?_extend {p : Properties} {pairs : List (Text × Text)} {key value : Text}
    (h : (p.extend pairs).get? key = some value) :
    p.get? key = some value ∨ (key, value) ∈ pairs := by
  rw [get?_extend, Option.or_eq_some_iff] at h
  rcases h with hset | ⟨-, hbefore⟩
  · exact .inr (List.mem_reverse.1 (Dict.mem_of_lookup hset))
  · exact .inl hbefore

/-- What is found under a key is the value of a definition. -/
theorem exists_of_get?_parse {source key value : Text} (h : (parse source).get? key = some value) :
    ∃ definition ∈ Definition.parse source, definition.value = value := by
  rcases mem_of_get?_extend h with hempty | hmem
  · cases hempty
  · obtain ⟨definition, hdefinition, hpair⟩ := List.mem_map.1 hmem
    exact ⟨definition, hdefinition, congrArg Prod.snd hpair⟩

end Properties

/-! ### A property with data as its value -/

namespace TagSource

/-- The segment of a property whose value stands between quotes as it is. -/
def spliced (key data : Text) : Text := key ++ '=' :: data.enclosed

variable {key data : Text}

theorem firm_spliced (hkey : key.Word) : Text.Firm (spliced key data) :=
  hkey.plainName.firm_pair (Text.firm_enclosed data)

/-- The segment of a property holds the data, and is cut nowhere else at a delimiter that is neither
the equal sign nor in the name. -/
theorem holds_segment {delimiter : Char} (hkey : key.Word) (hquote : delimiter ≠ Text.quoteMark)
    (hequals : delimiter ∉ ['=']) (hname : delimiter ∉ key) :
    Text.Holds delimiter 0 (spliced key data) data := by
  have hvalue : Text.Holds delimiter 0 (['='] ++ data.enclosed) data :=
    (Text.holds_enclosed hquote data).append (by decide) hequals
  exact hvalue.append (hkey.notMem (by decide)) hname

/-- So does what stands behind the question mark. -/
theorem holds_given (hkey : key.Word) : Text.Holds '?' 0 (given (key, data)) data := by
  have hsegment : Text.Holds '?' 0 (spliced key data) data :=
    holds_segment hkey (by decide) (by decide) (hkey.notMem (by decide))
  have hblank : Text.Holds '?' 0 (" &".toList ++ spliced key data) data :=
    hsegment.append (by decide) (by decide)
  exact hblank

theorem holds_ampersand (hkey : key.Word) : Text.Holds '&' 0 (spliced key data) data :=
  holds_segment hkey (by decide) (by decide) (hkey.notMem (by decide))

/-- The segment is cut at the equal sign behind the name. -/
theorem holds_spliced (hkey : key.Word) : Text.Holds '=' 1 (spliced key data) data :=
  ((Text.holds_enclosed (by decide) data).cut (by decide)).append (hkey.notMem (by decide))
    (hkey.notMem (by decide))

/-! ### Data that is not cut -/

/-- Where the data cover all question marks, the properties are one segment. -/
theorem segments_given (hkey : key.Word) (h : Text.Covered '?' data) :
    Text.segments '?' Text.quoteMark (given (key, data)) = ['&' :: spliced key data] := by
  have hblank : Text.trim (given (key, data)) = Text.trim ('&' :: spliced key data) :=
    Text.trimWhere_cons (by decide) _
  have hampersand : Text.Firm ['&'] := by decide
  have hfirm : Text.Firm ('&' :: spliced key data) := hampersand.append [] (firm_spliced hkey)
  rw [Text.segments, (holds_given hkey).pieces_eq (by decide) h, List.map_singleton, hblank,
    hfirm.trim_eq, List.filter_cons_of_pos (by simp), List.filter_nil]

/-- Where the data cover all separators, the properties are one definition. -/
theorem split_propertyString (hkey : key.Word) (h : Text.Covered '&' data) :
    Text.split '&' ('&' :: spliced key data) = [spliced key data] := by
  have hpieces : Text.pieces '&' Text.quoteMark false ('&' :: spliced key data) =
      [[], spliced key data] := by
    rw [Text.pieces, if_neg (by decide), if_pos ⟨rfl, rfl⟩,
      (holds_ampersand hkey).pieces_eq (by decide) h]
  rw [Text.split, Text.splitQuoted, if_pos List.mem_cons_self, if_pos rfl, Text.segments, hpieces,
    List.map_cons, List.map_singleton, (firm_spliced hkey).trim_eq, List.filter_cons_of_neg (by simp),
    List.filter_cons_of_pos (by simp [spliced]), List.filter_nil]

/-- Where the data cover all equality marks, the definition is a key and the quoted data. -/
theorem split_spliced (hkey : key.Word) (h : Text.Covered '=' data) :
    Text.split '=' (spliced key data) = [key, data.enclosed] := by
  have hsealed : Text.Sealed '=' key :=
    Text.sealed_of_notMem (hkey.notMem (by decide)) (hkey.notMem (by decide))
  have hpieces : Text.pieces '=' Text.quoteMark false (spliced key data) =
      [key, data.enclosed] := by
    rw [spliced, hsealed.pieces_append (by decide),
      (Text.holds_enclosed (by decide) data).pieces_eq (by decide) h]
  rw [Text.split, Text.splitQuoted, if_pos (by simp [spliced]), if_pos rfl, Text.segments, hpieces,
    List.map_cons, List.map_singleton, hkey.plainName.trim_eq, (Text.firm_enclosed data).trim_eq,
    List.filter_eq_self]
  simp [hkey.ne_nil, Text.enclosed]

/-- Where the data cover all semicolons, quoted data are no legacy form. -/
theorem ofLegacy_enclosed (h : Text.Covered ';' data) (name : Text) :
    Definition.ofLegacy name data.enclosed = .plain name data.enclosed := by
  rw [Definition.ofLegacy, Text.split_enclosed (by decide) h]

/-- **Data that is not cut** is the value of the property, up to the doubled quotes in it. -/
theorem parse_spliced (hkey : key.Word) (hsegment : Text.Covered '&' data)
    (hvalue : Text.Covered '=' data) (hlegacy : Text.Covered ';' data) :
    Definition.parse ('&' :: spliced key data) = [.plain key data.undouble] := by
  have hread : Definition.ofSegment? (spliced key data) = some (.plain key data.undouble) := by
    rw [Definition.ofSegment?, split_spliced hkey hvalue]
    simp only [hkey.plainName.cleanName_eq, ofLegacy_enclosed hlegacy, Definition.plain,
      Text.unquote_enclosed]
  rw [Definition.parse, split_propertyString hkey hsegment, List.filterMap_cons, hread]
  rfl

/-! ### Data that comes out -/

/-- Data that is in the text of a legacy value is in its only part. -/
theorem covered_of_ofLegacy {name : Text}
    (h : data.Sublist (Definition.ofLegacy name data.enclosed).value) : Text.Covered ';' data := by
  by_contra hcut
  have htwo := Text.two_le_length_split_enclosed (by decide) hcut
  rcases Definition.value_ofLegacy_cases name data.enclosed with ⟨hone, -⟩ | hpart
  · exact absurd hone (Nat.not_lt.2 htwo)
  · obtain ⟨piece, hpiece, hpart⟩ := Text.exists_of_mem_split hpart
    exact hcut ((Text.holds_enclosed (by decide) data).covered (by decide) hpiece hpart h)

/-- **Data that is a value of a property** was not cut, whatever the name of the property is. -/
theorem harmless_of_value (hkey : key.Word) {source : Text}
    (hsource : source ∈ Text.segments '?' Text.quoteMark (given (key, data)))
    {definition : Definition} (hdefinition : definition ∈ Definition.parse source)
    (hvalue : definition.value = data) : data.Harmless := by
  obtain ⟨segment, hsegment, name, raw, hsplit, -, hread⟩ :=
    Definition.exists_of_mem_parse hdefinition
  rw [hread] at hvalue
  -- What each step reads has the data in it.
  have hunquoted : data.Sublist (Definition.ofLegacy (Definition.cleanName name) raw).value := by
    have hpart := Text.unquote_sublist (Definition.ofLegacy (Definition.cleanName name) raw).value
    rwa [hvalue] at hpart
  have hinRaw : data.Sublist raw := hunquoted.trans (Definition.value_ofLegacy_sublist _ raw)
  have hraw : raw ∈ segment.split '=' := by rw [hsplit]; simp
  have hinSegment : data.Sublist segment := hinRaw.trans (Text.sublist_of_mem_split hraw)
  have hinSource : data.Sublist source := hinSegment.trans (Text.sublist_of_mem_split hsegment)
  -- So no step cuts it.
  have hquestion : Text.Covered '?' data := by
    obtain ⟨piece, hpiece, hpart⟩ := Text.exists_of_mem_segments hsource
    exact (holds_given hkey).covered (by decide) hpiece hpart hinSource
  rw [segments_given hkey hquestion] at hsource
  obtain rfl := List.mem_singleton.1 hsource
  have hampersand : Text.Covered '&' data := by
    obtain ⟨piece, hpiece, hpart⟩ := Text.exists_of_mem_split hsegment
    exact ((holds_ampersand hkey).cut (by decide)).covered (by decide) hpiece hpart hinSegment
  rw [split_propertyString hkey hampersand] at hsegment
  obtain rfl := List.mem_singleton.1 hsegment
  have hequals : Text.Covered '=' data := by
    obtain ⟨piece, hpiece, hpart⟩ := Text.exists_of_mem_split hraw
    exact (holds_spliced hkey).covered (by decide) hpiece hpart hinRaw
  rw [split_spliced hkey hequals, List.cons.injEq, List.cons.injEq] at hsplit
  obtain ⟨rfl, rfl, -⟩ := hsplit
  have hsemicolon : Text.Covered ';' data := covered_of_ofLegacy hunquoted
  have hsingle : data.undouble = data := by
    rw [ofLegacy_enclosed hsemicolon] at hvalue
    exact (Text.unquote_enclosed data).symm.trans hvalue
  refine ⟨(Text.undouble_eq_self_iff data).1 hsingle, ?_⟩
  show ∀ delimiter ∈ ['?', '&', '=', ';'], Text.Covered delimiter data
  simpa using ⟨hquestion, hampersand, hequals, hsemicolon⟩

/-! ### Calls with data -/

/-- The inner text of a tag that calls a chunk with one property, whose value stands between quotes
as it is. -/
def splicedCall (name key data : Text) : Text := callStart false name ++ '?' :: given (key, data)

section Call

variable {name : Text} (hname : ChunkName name) (hkey : key.Word)
include hname

/-- The properties of the call are read from the first segment behind its name. -/
theorem properties_splicedCall : (read (splicedCall name key data)).properties =
    ((Text.segments '?' Text.quoteMark (given (key, data))).head?.map Properties.parse).getD
      .empty := by
  rw [splicedCall, read_call false hname]
  rfl

/-- What the call has under a key comes from a segment of what was given. -/
theorem exists_of_get?_splicedCall {other value : Text}
    (h : (read (splicedCall name key data)).properties.get? other = some value) :
    ∃ source ∈ Text.segments '?' Text.quoteMark (given (key, data)),
      ∃ definition ∈ Definition.parse source, definition.value = value := by
  rw [properties_splicedCall hname] at h
  cases hsource : (Text.segments '?' Text.quoteMark (given (key, data))).head? with
  | none =>
    rw [hsource] at h
    cases h
  | some source =>
    rw [hsource] at h
    exact ⟨source, List.mem_of_head? hsource, Properties.exists_of_get?_parse h⟩

/-- Nothing comes into the values that is not in the text of the call. -/
theorem sublist_of_get?_splicedCall {other value : Text}
    (h : (read (splicedCall name key data)).properties.get? other = some value) :
    value.Sublist (given (key, data)) := by
  obtain ⟨source, hsource, definition, hdefinition, rfl⟩ := exists_of_get?_splicedCall hname h
  obtain ⟨piece, hpiece, hpart⟩ := Text.exists_of_mem_segments hsource
  exact (Definition.value_sublist hdefinition).trans
    (hpart.trans (Text.sublist_of_mem_pieces hpiece))

include hkey

/-- **Harmless data is the value of its property.** -/
theorem get?_splicedCall (h : data.Harmless) :
    (read (splicedCall name key data)).properties.get? key = some data := by
  have hparse : Definition.parse ('&' :: spliced key data) = [.plain key data.undouble] :=
    parse_spliced hkey (h.covered _ (by decide)) (h.covered _ (by decide))
      (h.covered _ (by decide))
  rw [properties_splicedCall hname, segments_given hkey (h.covered _ (by decide))]
  show (Properties.parse ('&' :: spliced key data)).get? key = some data
  rw [Properties.parse, hparse, (Text.undouble_eq_self_iff data).2 h.single]
  show (Properties.empty.insert key data).get? key = some data
  rw [Properties.get?_insert, if_pos rfl]

/-- If a key has the data exactly, the data are harmless. -/
theorem harmless_of_get?_splicedCall {other : Text}
    (h : (read (splicedCall name key data)).properties.get? other = some data) :
    data.Harmless := by
  obtain ⟨source, hsource, definition, hdefinition, hvalue⟩ := exists_of_get?_splicedCall hname h
  exact harmless_of_value hkey hsource hdefinition hvalue

end Call

end TagSource

/-! ### A card with a name on it -/

/-- An engine with the default options and a chunk that shows a title, and a store that has a name
without brackets and no title. -/
structure Greeting (e : Engine) (store : Store) (v : Text) : Prop where
  options : e.options = .default
  chunk : e.chunks "card".toList = .ok "<h1>[[+title]]</h1>".toList
  stored : store.text? "name".toList = some v
  plain : brackets.Plain v
  no_title : store.text? "title".toList = none
  no_prefixed_title : store.text? "+title".toList = none

namespace Greeting

/-- A call of the chunk with a title that has a placeholder tag in it. -/
def content : Text := "[[$card? &title=`Hi [[+name]]`]]".toList

/-- The title that is meant. -/
def wanted (v : Text) : Text := "Hi ".toList ++ v

/-- The inner text of the call. -/
def call : Text := "$card? &title=`Hi [[+name]]`".toList

/-- The inner text of the call when the name was put into it. -/
def called (v : Text) : Text := splicedCall "card".toList "title".toList (wanted v)

/-- The title that the text of the chunk finds: a property of the call with the name as it is or
behind the site prefix. -/
def title? (v : Text) : Option Text :=
  ((read (called v)).properties.get? "title".toList).or
    ((read (called v)).properties.get? "+title".toList)

/-- The text of the chunk with a title, or with the tag for it if there is none. -/
def card (title : Option Text) : Text :=
  "<h1>".toList ++ (title.getD "[[+title]]".toList ++ "</h1>".toList)

/-- The card shows the title that is meant only if that is the title. -/
theorem card_eq_iff {title : Option Text} {v : Text} :
    card title = card (some (wanted v)) ↔ title = some (wanted v) := by
  rw [card, card, List.append_cancel_left_eq, List.append_cancel_right_eq]
  cases title with
  | none => simp [wanted]
  | some value => simp

/-- The pieces of the text of the chunk. -/
def cardPieces : List Piece :=
  [.plain "<h1>".toList, .tag (placeholder false "title".toList), .plain "</h1>".toList]

theorem flat_cardPieces : ∀ piece ∈ cardPieces, piece.Flat brackets := by decide

theorem scan_content : brackets.scan content = [.plain [], .tag call, .plain []] := by
  have hfirst : brackets.counted? content = some ([], call, []) := by decide +kernel
  have hlast : brackets.counted? [] = none := by decide +kernel
  rw [separate_brackets.scan_of_some hfirst, separate_brackets.scan_of_none hlast]

theorem chunkName_card : ChunkName "card".toList := chunkName_of_word (by decide)

theorem word_name : Text.Word "name".toList := by decide

theorem word_title : Text.Word "title".toList := by decide

/-- The title is the one that is meant exactly when the name is harmless. -/
theorem title?_eq_iff (v : Text) : title? v = some (wanted v) ↔ v.Harmless := by
  have hfree : ∀ delimiter ∈ "?&=;".toList, delimiter ∉ "Hi ".toList := by
    show ∀ delimiter ∈ ['?', '&', '=', ';'], delimiter ∉ ['H', 'i', ' ']
    simp
  have hsame : (wanted v).Harmless ↔ v.Harmless := Text.harmless_append_iff (by decide) hfree
  rw [← hsame, title?]
  constructor
  · intro htitle
    rcases Option.or_eq_some_iff.1 htitle with htitle | ⟨-, htitle⟩
    · exact harmless_of_get?_splicedCall chunkName_card word_title htitle
    · exact harmless_of_get?_splicedCall chunkName_card word_title htitle
  · intro hharmless
    rw [called, get?_splicedCall chunkName_card word_title hharmless, Option.some_or]

variable {e : Engine} {store : Store} {v : Text} (h : Greeting e store v)
include h

theorem delimiters_eq : e.options.delimiters = brackets :=
  Engine.delimiters_of_default h.options

/-- A title has no brackets, since the name has none. -/
theorem plain_title {value : Text} (htitle : title? v = some value) : brackets.Plain value := by
  have hwanted : brackets.Plain (wanted v) := Plain.append_iff.2 ⟨by decide, h.plain⟩
  have hkey : brackets.Plain "title".toList := by decide
  have hgiven : brackets.Plain (given ("title".toList, wanted v)) :=
    Plain.append_iff.2 ⟨by decide, Plain.append_iff.2 ⟨hkey, Plain.append_iff.2 ⟨by decide,
      Plain.append_iff.2 ⟨hwanted, by decide⟩⟩⟩⟩
  rcases Option.or_eq_some_iff.1 htitle with htitle | ⟨-, htitle⟩
  · exact hgiven.mono (sublist_of_get?_splicedCall chunkName_card htitle).subset
  · exact hgiven.mono (sublist_of_get?_splicedCall chunkName_card htitle).subset

theorem lookup_title : e.lookup store "title".toList = none := by
  rw [Engine.lookup_of_default h.options, h.no_title, Option.none_or]
  exact h.no_prefixed_title

/-- A placeholder tag comes to what its name is looked up as. -/
theorem comes_tag (ctx : Context) (within : Store) (tag : Text) {key : Text} (hkey : key.Word)
    (hremove : ctx.removeUnprocessed = false) (hroom : 0 < e.room ctx)
    (hself : brackets.wrap (placeholder false key) ≠ tag)
    (hnew : brackets.wrap (placeholder false key) ∉ ctx.resolving)
    (hvalue : ∀ value, e.lookup within key = some value → brackets.Plain value) :
    (Search.mk brackets tag []).Comes ctx within (e.resolveInner brackets ctx)
      (placeholder false key) (e.lookup within key) :=
  Engine.comes_placeholder separate_brackets h.delimiters_eq hkey (plain_placeholder false hkey)
    hremove hself hnew hroom hvalue

/-- The name is put into the call as it is. -/
theorem arguments_yield : ∃ count, ((Search.mk brackets (brackets.wrap call) []).pass
    e.fullContext.forArguments call fun nested _ ↦
      e.resolveInner brackets e.fullContext.forArguments nested).Yields store
        (.ok (called v, count)) := by
  let search : Search := ⟨brackets, brackets.wrap call, []⟩
  let answer (_ : Text) : Option Text := some v
  let pieces : List Piece :=
    [.plain "$card? &title=`Hi ".toList, .tag (placeholder false "name".toList),
      .plain "`".toList]
  have hlookup : e.lookup store "name".toList = some v := by
    rw [Engine.lookup_of_default h.options, h.stored, Option.some_or]
  have hroom : 0 < e.room e.fullContext := Engine.room_fullContext_pos h.options
  have hcomes : ∀ inner ∈ pieces.filterMap Piece.inner?, search.Comes e.fullContext.forArguments
      store (e.resolveInner brackets e.fullContext.forArguments) inner (answer inner) := by
    refine List.forall_mem_singleton.2 ?_
    have hname := h.comes_tag e.fullContext.forArguments store (brackets.wrap call) word_name rfl
      hroom (by decide) List.not_mem_nil fun value hvalue ↦ by
        rw [hlookup, Option.some.injEq] at hvalue
        exact hvalue ▸ h.plain
    rw [hlookup] at hname
    exact hname
  have hflat : ∀ piece ∈ pieces, piece.Flat search.delimiters := by decide
  have hseparate : search.delimiters.Separate := separate_brackets
  have hpass := Search.pass_yields_settle hseparate rfl hflat hcomes
  exact hpass

/-- While the text of the chunk is resolved, the title is a placeholder. -/
theorem lookup_within : e.lookup ((e.tagOf brackets store (called v)).storeWithin store)
    "title".toList = title? v := by
  have hkind : (read (called v)).kind = .chunk := by
    rw [called, splicedCall, read_call false chunkName_card]
  rw [Engine.lookup_of_default h.options, Engine.text?_storeWithin_of_none hkind h.no_title, title?,
    ← Engine.text?_storeWithin_of_none hkind h.no_prefixed_title]
  rfl

omit h in
/-- The card with its title in place. -/
theorem unite_settle (title : Option Text) :
    Piece.unite brackets (cardPieces.map (Piece.settle fun _ ↦ title)) = card title := by
  cases title <;> rfl

/-- The text of the chunk comes to the card. -/
theorem body_yields {below : Context} (hresolving : below.resolving = [brackets.wrap (called v)])
    (hroom : 0 < e.room below) (hremove : below.removeUnprocessed = false) :
    (e.bodyOf (brackets.wrap (called v)) below "<h1>[[+title]]</h1>".toList).Yields
      ((e.tagOf brackets store (called v)).storeWithin store) (.ok (card (title? v))) := by
  have hself : brackets.wrap (placeholder false "title".toList) ≠ brackets.wrap (called v) :=
    fun heq ↦ placeholder_ne_call false false _ _ _ (brackets.wrap_injective heq)
  have hnew : brackets.wrap (placeholder false "title".toList) ∉ below.resolving := by
    rw [hresolving]
    exact fun hmem ↦ hself (List.mem_singleton.1 hmem)
  have hlookup := h.lookup_within
  have htitle := h.comes_tag below ((e.tagOf brackets store (called v)).storeWithin store)
    (brackets.wrap (called v)) word_title hremove hroom hself hnew
    fun value hvalue ↦ h.plain_title (hlookup.symm.trans hvalue)
  rw [hlookup] at htitle
  let answer (_ : Text) : Option Text := title? v
  have hanswers : ∀ inner ∈ cardPieces.filterMap Piece.inner?,
      (Search.mk brackets (brackets.wrap (called v)) []).Comes below
        ((e.tagOf brackets store (called v)).storeWithin store) (e.resolveInner brackets below)
          inner (answer inner) ∧
        ∀ output, answer inner = some output → brackets.Plain output :=
    List.forall_mem_singleton.2 ⟨htitle, fun output ↦ h.plain_title⟩
  have hbody := Engine.bodyOf_yields separate_brackets h.delimiters_eq hremove flat_cardPieces
    hanswers
  rw [unite_settle] at hbody
  exact hbody

/-- **The call yields the card** with the title that was found. -/
theorem call_yields : (e.resolveInner brackets e.fullContext call).Yields store
    (.ok (some (card (title? v)))) := by
  obtain ⟨count, hargs⟩ := h.arguments_yield
  refine Engine.resolve_chunk_yields (by decide) hargs (read_call false chunkName_card _)
    chunkName_card.splitName_eq (fun _ ↦ rfl) h.chunk List.not_mem_nil
    (Engine.room_fullContext_pos h.options) (fun hnil ↦ nomatch hnil)
    fun below hresolving hlevels _ hremove ↦ ?_
  rw [Engine.room_fullContext h.options] at hlevels
  exact h.body_yields hresolving (by omega) hremove

/-- A tag for the title that is left finds no title either. -/
theorem comes_left {inner : Text} (hinner : inner ∈ brackets.tags (card (title? v))) :
    (Search.mk brackets [] []).Comes e.fullContext store (e.resolveInner brackets e.fullContext)
      inner none := by
  rw [← unite_settle] at hinner
  obtain ⟨hinner, -⟩ := Search.mem_of_mem_tags_settle separate_brackets flat_cardPieces
    (fun _ _ output ↦ h.plain_title) hinner
  obtain rfl := List.mem_singleton.1 hinner
  have hroom : 0 < e.room e.fullContext := Engine.room_fullContext_pos h.options
  have hlookup := h.lookup_title
  have htitle := h.comes_tag e.fullContext store [] word_title rfl hroom (by decide)
    List.not_mem_nil fun value hvalue ↦ nomatch hlookup.symm.trans hvalue
  rw [hlookup] at htitle
  exact htitle

/-- What the greeting comes to, for every name. -/
theorem process_content {s : State} (hs : s.store = store) :
    (e.process content s).1 = .ok (card (title? v)) := by
  subst hs
  exact Engine.process_of_single h.delimiters_eq scan_content (by decide) h.call_yields
    fun _ ↦ h.comes_left

end Greeting

namespace Engine

/-- **Data in an argument comes out as it is exactly when it is harmless**: it has no two quotes in
a row, and an even number of quotes before each question mark, ampersand, equal sign and semicolon
in it. -/
theorem data_verbatim_iff {e : Engine} {s : State} {v : Text} (h : Greeting e s.store v) :
    (e.process Greeting.content s).1 = .ok ("<h1>Hi ".toList ++ (v ++ "</h1>".toList)) ↔
      v.Harmless := by
  have hwanted : "<h1>Hi ".toList ++ (v ++ "</h1>".toList) =
      Greeting.card (some (Greeting.wanted v)) := rfl
  rw [h.process_content rfl, hwanted, Except.ok.injEq, Greeting.card_eq_iff,
    Greeting.title?_eq_iff]

/-- An engine with a chunk that shows a title. -/
def cards : Engine where
  options := {}
  chunks name :=
    if name = "card".toList then .ok "<h1>[[+title]]</h1>".toList
    else ChunkSource.missing name

/-- A store with a name and nothing else. -/
def naming (v : Text) : Store := Dict.insert .empty "name".toList (.str v)

theorem text?_naming (v key : Text) :
    Store.text? (naming v) key = if "name".toList = key then some v else none := by
  rw [Store.text?, naming, Dict.get?_insert]
  split <;> rfl

/-- An engine in memory with the card, and a store with the name. -/
theorem cards_greeting {v : Text} (h : brackets.Plain v) : Greeting cards (naming v) v where
  options := rfl
  chunk := rfl
  stored := by rw [text?_naming, if_pos rfl]
  plain := h
  no_title := by rw [text?_naming, if_neg (by decide)]
  no_prefixed_title := by rw [text?_naming, if_neg (by decide)]

/-- A name with all delimiters, behind two quotes or four. -/
def quaint : Text := "`a` & b=c; `d`?".toList

/-- Data with marks and quotes in pairs come out as they are. -/
theorem quaint_verbatim :
    Greeting cards (naming quaint) quaint ∧ quaint.Harmless ∧
      (cards.process Greeting.content { store := naming quaint }).1 =
        .ok "<h1>Hi `a` & b=c; `d`?</h1>".toList := by
  have hcard : Greeting cards (naming quaint) quaint := cards_greeting (by decide)
  have hharmless : quaint.Harmless := by decide +kernel
  exact ⟨hcard, hharmless, (data_verbatim_iff (s := { store := naming quaint }) hcard).2 hharmless⟩

/-- **Not every name comes out as it is**: of two quotes in a row, one is lost. -/
theorem doubled_not_verbatim :
    Greeting cards (naming "a``b".toList) "a``b".toList ∧
      (cards.process Greeting.content { store := naming "a``b".toList }).1 =
        .ok "<h1>Hi a`b</h1>".toList ∧
      (cards.process Greeting.content { store := naming "a``b".toList }).1 ≠
        .ok "<h1>Hi a``b</h1>".toList := by
  have hcard : Greeting cards (naming "a``b".toList) "a``b".toList := cards_greeting (by decide)
  have htitle : Greeting.title? "a``b".toList = some "Hi a`b".toList := by decide +kernel
  have hrun : (cards.process Greeting.content { store := naming "a``b".toList }).1 =
      .ok "<h1>Hi a`b</h1>".toList := by
    rw [hcard.process_content rfl, htitle]
    rfl
  refine ⟨hcard, hrun, ?_⟩
  rw [hrun]
  decide

end Engine

end TagTemplate
