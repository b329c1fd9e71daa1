import TagTemplate.Proofs.FilterNotation
import TagTemplate.Proofs.FlatContent
import TagTemplate.Proofs.JoinedProperties
import TagTemplate.Proofs.PropertyString
import TagTemplate.Tag.Basic

/-!
# Tags read back

The two kinds of tags as they are written by hand: a placeholder tag is a name behind a plus sign,
and a chunk is called with a question mark behind its name and then a blank, an ampersand, a name
and a quotation for each property. Both may be marked as uncacheable.

They are read as what they were written for (`read_placeholder`, `read_chunkCall`), if the names in
them are not taken for something else. For the names of properties and placeholders it is enough
that they are words; the name of a chunk may be anything that does not end in a blank, has no
filters and is sealed against question marks. Between two properties there is a blank that belongs
to neither of them: it ends up at the end of a segment, where it is trimmed.
-/

namespace TagTemplate

/-! ### Words -/

namespace Text

/-- A text of which no character is blank or has a meaning in tags. -/
structure Word (t : Text) : Prop where
  ne_nil : t ≠ []
  free : ∀ c ∈ t, isBlank c = false ∧ c ∉ "?:&=;`[]".toList

/-- Whether a text is a word can be computed. -/
instance (t : Text) : Decidable (Word t) :=
  letI := List.decidableBAll (fun c ↦ isBlank c = false ∧ c ∉ "?:&=;`[]".toList) t
  decidable_of_iff (t ≠ [] ∧ ∀ c ∈ t, isBlank c = false ∧ c ∉ "?:&=;`[]".toList)
    ⟨fun ⟨ne_nil, free⟩ ↦ ⟨ne_nil, free⟩, fun h ↦ ⟨h.ne_nil, h.free⟩⟩

namespace Word

variable {t : Text} (h : Word t)
include h

theorem notMem {c : Char} (hc : c ∈ "?:&=;`[]".toList) : c ∉ t := fun hmem ↦ (h.free c hmem).2 hc

theorem last : ∀ c ∈ t.getLast?, isBlank c = false :=
  fun c hc ↦ (h.free c (List.mem_of_getLast? hc)).1

/-- A word is the name of a property that can be written. -/
theorem plainName : Properties.PlainName t where
  ne_nil := h.ne_nil
  head c hc := (h.free c (List.mem_of_head? hc)).1
  last := h.last
  no_ampersand := h.notMem (by decide)
  no_equals := h.notMem (by decide)
  no_quote := h.notMem (by decide)
  not_encoded hstart := h.notMem (c := ';') (by decide) (hstart.subset (by decide))

theorem plain_brackets : Delimiters.brackets.Plain t :=
  Delimiters.plain_brackets_iff.2 ⟨h.notMem (by decide), h.notMem (by decide)⟩

end Word

/-- Sealed texts one behind the other are sealed. -/
theorem sealed_flatMap {α : Type} {delimiter : Char} {f : α → Text} {xs : List α}
    (h : ∀ x ∈ xs, Sealed delimiter (f x)) : Sealed delimiter (xs.flatMap f) := by
  induction xs with
  | nil => exact sealed_nil
  | cons x xs ih =>
    rw [List.forall_mem_cons] at h
    exact h.1.append (ih h.2)

end Text

namespace TagSource

/-- What stands in front of the token of a tag. -/
def marks (uncacheable : Bool) : Text := if uncacheable then [uncacheableMark] else []

/-! ### Placeholder tags -/

/-- The inner text of a placeholder tag without filters and properties. -/
def placeholder (uncacheable : Bool) (key : Text) : Text :=
  marks uncacheable ++ TagKind.placeholder.token :: key

/-- A placeholder tag that is a word behind its token is read as what it was written for. -/
theorem read_placeholder (uncacheable : Bool) {key : Text} (h : key.Word) :
    read (placeholder uncacheable key) = ⟨uncacheable, .placeholder, key, none⟩ := by
  have hquestion : '?' ∉ placeholder uncacheable key := by
    have hkey : '?' ∉ key := h.notMem (by decide)
    cases uncacheable with
    | false => simpa [placeholder, marks, TagKind.token] using hkey
    | true => simpa [placeholder, marks, TagKind.token, uncacheableMark] using hkey
  have hlast : (placeholder uncacheable key).getLast? = key.getLast? := by
    rw [placeholder, List.getLast?_append, List.getLast?_cons,
      List.getLast?_eq_some_getLast h.ne_nil]
    rfl
  have htrim : (placeholder uncacheable key).trim = placeholder uncacheable key := by
    refine Text.trimWhere_eq_self ?_ (hlast ▸ h.last)
    cases uncacheable with
    | false => simpa [placeholder, marks] using
        (by decide : Text.isBlank TagKind.placeholder.token = false)
    | true => simpa [placeholder, marks] using (by decide : Text.isBlank uncacheableMark = false)
  rw [read, Text.splitQuoted, if_neg hquestion, htrim]
  cases uncacheable <;> rfl

theorem head?_placeholder (uncacheable : Bool) (key : Text) :
    (placeholder uncacheable key).head? =
      some (if uncacheable then uncacheableMark else TagKind.placeholder.token) := by
  cases uncacheable <;> rfl

/-- A placeholder of a word has no brackets. -/
theorem plain_placeholder (uncacheable : Bool) {key : Text} (h : key.Word) :
    Delimiters.brackets.Plain (placeholder uncacheable key) := by
  have hmarks : Delimiters.brackets.Plain (marks uncacheable ++ [TagKind.placeholder.token]) := by
    cases uncacheable <;> decide
  rw [placeholder, List.append_cons]
  exact Delimiters.Plain.append_iff.2 ⟨hmarks, h.plain_brackets⟩

/-- A word has no filters behind it. -/
theorem splitName_word {key : Text} (h : key.Word) : FilterChain.splitName key = (key, []) := by
  have hnone : ∀ step ∈ ([] : FilterChain), step.Writable := List.forall_mem_nil _
  have hname := FilterChain.splitName_written hnone h.ne_nil (h.notMem (by decide))
  rw [FilterChain.written, List.flatMap_nil, List.append_nil] at hname
  exact hname

/-! ### Calls of chunks -/

/-- The inner text of a tag that calls a chunk, up to the question mark. -/
def callStart (uncacheable : Bool) (name : Text) : Text :=
  marks uncacheable ++ TagKind.chunk.token :: name

/-- A property as it is given in a call: behind a blank and an ampersand. -/
def given (entry : Text × Text) : Text :=
  " &".toList ++ (entry.1 ++ ("=`".toList ++ (entry.2 ++ "`".toList)))

/-- The inner text of a tag that calls a chunk with the given properties. -/
def chunkCall (uncacheable : Bool) (name : Text) (p : Properties) : Text :=
  callStart uncacheable name ++ '?' :: p.entries.flatMap given

/-- A call is not a comment. -/
theorem head?_call (uncacheable : Bool) (name rest : Text) :
    (callStart uncacheable name ++ rest).head? ≠ some '-' := by
  cases uncacheable <;> simp [callStart, marks, TagKind.token, uncacheableMark]

/-- A call is not a placeholder tag. -/
theorem placeholder_ne_call (uncacheable uncacheable' : Bool) (key name rest : Text) :
    placeholder uncacheable key ≠ callStart uncacheable' name ++ rest := by
  cases uncacheable <;> cases uncacheable' <;>
    simp [placeholder, callStart, marks, TagKind.token, uncacheableMark]

/-- The name of a chunk that can be written into a call as it is. -/
structure ChunkName (name : Text) : Prop where
  splitName_eq : FilterChain.splitName name = (name, [])
  sealed_question : Text.Sealed '?' name
  /-- It does not end in a blank. -/
  last : ∀ c ∈ name.getLast?, Text.isBlank c = false

/-- A property that can be given in a call as it is. -/
structure Givable (entry : Text × Text) : Prop where
  word : entry.1.Word
  no_quote : Text.quoteMark ∉ entry.2

/-- Whether a property can be given can be computed. -/
instance (entry : Text × Text) : Decidable (Givable entry) :=
  decidable_of_iff (entry.1.Word ∧ Text.quoteMark ∉ entry.2)
    ⟨fun ⟨word, no_quote⟩ ↦ ⟨word, no_quote⟩, fun h ↦ ⟨h.word, h.no_quote⟩⟩

theorem chunkName_of_word {name : Text} (h : name.Word) : ChunkName name :=
  ⟨splitName_word h, Text.sealed_of_notMem (h.notMem (by decide)) (h.notMem (by decide)), h.last⟩

namespace Givable

variable {entry : Text × Text} (h : Givable entry)
include h

/-- What is given is a segment of a property string, behind a blank and an ampersand. -/
theorem given_eq : given entry = ' ' :: '&' :: Properties.segment entry := by
  have hdouble : entry.2.double = entry.2 := by
    have hsame : entry.2.flatMap (fun c ↦ if c = Text.quoteMark then [c, c] else [c]) =
        entry.2.flatMap fun c ↦ [c] :=
      List.flatMap_congr fun c hc ↦ if_neg fun hmark : c = Text.quoteMark ↦ h.no_quote (hmark ▸ hc)
    rw [Text.double, hsame, List.flatMap_singleton']
  rw [Properties.segment, h.word.plainName.trim_eq, Text.quote, hdouble]
  rfl

end Givable

/-- The start of a call ends in front of the question mark. -/
theorem sealed_callStart (uncacheable : Bool) {name : Text} (h : ChunkName name) :
    Text.Sealed '?' (callStart uncacheable name) := by
  have hmarks : Text.Sealed '?' (marks uncacheable) := by
    cases uncacheable with
    | false => exact Text.sealed_nil
    | true => exact Text.sealed_of_notMem (by decide) (by decide)
  have htoken : Text.Sealed '?' [TagKind.chunk.token] :=
    Text.sealed_of_notMem (by decide) (by decide)
  exact hmarks.append (htoken.append h.sealed_question)

/-- The start of a call has no blanks at its ends. -/
theorem trim_callStart (uncacheable : Bool) {name : Text} (h : ChunkName name) :
    (callStart uncacheable name).trim = callStart uncacheable name := by
  have htoken : Text.isBlank TagKind.chunk.token = false := by decide
  have hmark : Text.isBlank uncacheableMark = false := by decide
  refine Text.trimWhere_eq_self ?_ fun c hc ↦ ?_
  · cases uncacheable with
    | false => simpa [callStart, marks] using htoken
    | true => simpa [callStart, marks] using hmark
  · have hlast : (callStart uncacheable name).getLast? =
        name.getLast?.or (some TagKind.chunk.token) := by
      rw [callStart, List.append_cons, List.getLast?_append, List.getLast?_concat]
    rw [hlast] at hc
    cases hname : name.getLast? with
    | none =>
      rw [hname] at hc
      obtain rfl : TagKind.chunk.token = c := Option.some.inj hc
      exact htoken
    | some c' =>
      rw [hname] at hc
      obtain rfl : c' = c := Option.some.inj hc
      exact h.last c' hname

theorem plain_callStart (uncacheable : Bool) {name : Text} (h : Delimiters.brackets.Plain name) :
    Delimiters.brackets.Plain (callStart uncacheable name) := by
  have hmarks : Delimiters.brackets.Plain (marks uncacheable) := by cases uncacheable <;> decide
  exact Delimiters.Plain.append_iff.2 ⟨hmarks, Delimiters.Plain.cons_iff.2 ⟨by decide, h⟩⟩

/-- A call has no brackets that were not in the name of the chunk or in the values. -/
theorem plain_chunkCall (uncacheable : Bool) {name : Text} {p : Properties}
    (hname : Delimiters.brackets.Plain name)
    (hp : ∀ entry ∈ p.entries, Givable entry ∧ Delimiters.brackets.Plain entry.2) :
    Delimiters.brackets.Plain (chunkCall uncacheable name p) := by
  have hgiven : Delimiters.brackets.Plain (p.entries.flatMap given) := by
    intro c hc
    obtain ⟨entry, hentry, hc⟩ := List.mem_flatMap.1 hc
    obtain ⟨hgivable, hvalue⟩ := hp entry hentry
    have hplain : Delimiters.brackets.Plain (given entry) :=
      Delimiters.Plain.append_iff.2 ⟨by decide, Delimiters.Plain.append_iff.2
        ⟨hgivable.word.plain_brackets, Delimiters.Plain.append_iff.2 ⟨by decide,
          Delimiters.Plain.append_iff.2 ⟨hvalue, by decide⟩⟩⟩⟩
    exact hplain c hc
  exact Delimiters.Plain.append_iff.2
    ⟨plain_callStart uncacheable hname, Delimiters.Plain.cons_iff.2 ⟨by decide, hgiven⟩⟩

/-- What a call without properties is read as. -/
theorem read_callStart (uncacheable : Bool) {name : Text} (h : name.Word) :
    read (callStart uncacheable name) = ⟨uncacheable, .chunk, name, none⟩ := by
  have hquestion : '?' ∉ callStart uncacheable name := by
    have hname : '?' ∉ name := h.notMem (by decide)
    cases uncacheable <;> simpa [callStart, marks, TagKind.token, uncacheableMark] using hname
  rw [read, Text.splitQuoted, if_neg hquestion, trim_callStart uncacheable (chunkName_of_word h)]
  cases uncacheable <;> rfl

/-- **What a call is read as**, whatever stands behind the question mark. -/
theorem read_call (uncacheable : Bool) {name : Text} (h : ChunkName name) (rest : Text) :
    read (callStart uncacheable name ++ '?' :: rest) =
      ⟨uncacheable, .chunk, name, (Text.segments '?' Text.quoteMark rest).head?⟩ := by
  have hne : callStart uncacheable name ≠ [] := by simp [callStart]
  have hsplit : (callStart uncacheable name ++ '?' :: rest).splitQuoted '?' Text.quoteMark 2 =
      callStart uncacheable name :: (Text.segments '?' Text.quoteMark rest).take 1 := by
    rw [Text.splitQuoted, if_pos (by simp), if_neg (by decide), Text.segments,
      (sealed_callStart uncacheable h).pieces_append (by decide), List.map_cons,
      trim_callStart uncacheable h, List.filter_cons_of_pos (by simpa using hne),
      List.take_succ_cons, Text.segments]
  have hsecond : ((Text.segments '?' Text.quoteMark rest).take 1)[0]? =
      (Text.segments '?' Text.quoteMark rest).head? := by
    rw [List.getElem?_take_of_lt Nat.one_pos, List.head?_eq_getElem?]
  rw [read, hsplit, ← hsecond]
  cases uncacheable <;> rfl

/-! ### Properties given in a call -/

variable {entry : Text × Text} {entries : List (Text × Text)}

/-- What is given is sealed against question marks. -/
theorem sealed_given (h : ∀ entry ∈ entries, Givable entry) :
    Text.Sealed '?' (entries.flatMap given) := by
  refine Text.sealed_flatMap fun entry hentry ↦ ?_
  have hgiven := h entry hentry
  have hblank : Text.Sealed '?' " &".toList := Text.sealed_of_notMem (by decide) (by decide)
  rw [hgiven.given_eq]
  exact hblank.append (Properties.sealed_segment hgiven.word.plainName entry.2
    (hgiven.word.notMem (by decide)) (by decide))

/-- What is given is defined, behind any text that is sealed. The blank in front of each ampersand
is trimmed. -/
theorem parse_append_given {x : Text} (hx : Text.Sealed '&' x)
    (h : ∀ entry ∈ entries, Givable entry) :
    Definition.parse (x ++ entries.flatMap given) =
      (Definition.ofSegment? x.trim).toList ++
        entries.map fun entry ↦ .plain entry.1 entry.2 := by
  induction entries generalizing x with
  | nil => rw [List.flatMap_nil, List.append_nil, Definition.parse_of_sealed hx, List.map_nil,
      List.append_nil]
  | cons entry entries ih =>
    obtain ⟨hentry, hentries⟩ := List.forall_mem_cons.1 h
    have hname := hentry.word.plainName
    have hsegment : Text.Sealed '&' (Properties.segment entry) :=
      Properties.sealed_segment hname entry.2 hname.no_ampersand (by decide)
    have hblank : Text.Sealed '&' (x ++ [' ']) :=
      hx.append (Text.sealed_of_notMem (by decide) (by decide))
    have hshape : x ++ (entry :: entries).flatMap given =
        x ++ [' '] ++ '&' :: (Properties.segment entry ++ entries.flatMap given) := by
      rw [List.flatMap_cons, hentry.given_eq]
      simp
    have htrim : (x ++ [' ']).trim = x.trim := Text.trimWhere_concat (by decide) x
    rw [hshape, Definition.parse_sealed_append hblank, htrim, ih hsegment hentries,
      (Properties.firm_segment hname entry.2).trim_eq, Properties.ofSegment?_segment hname]
    rfl

/-- **A call of a chunk is read as what it was written for**: the name of the chunk, and the
properties that are given. -/
theorem read_chunkCall (uncacheable : Bool) {name : Text} (hname : ChunkName name) {p : Properties}
    (hp : ∀ entry ∈ p.entries, Givable entry) :
    ∃ raw, read (chunkCall uncacheable name p) = ⟨uncacheable, .chunk, name, raw⟩ ∧
      (raw.map Properties.parse).getD .empty = p := by
  refine ⟨_, read_call uncacheable hname _, ?_⟩
  have hparse : Definition.parse (Text.trim (p.entries.flatMap given)) =
      p.entries.map fun entry ↦ .plain entry.1 entry.2 := by
    rw [Definition.parse_trim]
    exact parse_append_given Text.sealed_nil hp
  have hproperties : Properties.parse (Text.trim (p.entries.flatMap given)) = p := by
    rw [Properties.parse, hparse, Properties.ofList_plain]
  rw [Text.segments, (sealed_given hp).pieces_eq, List.map_singleton]
  by_cases hempty : Text.trim (p.entries.flatMap given) = []
  · -- Then there is no segment, and no properties are given.
    rw [List.filter_cons_of_neg (by simp [hempty]), ← hproperties, hempty]
    rfl
  · rw [List.filter_cons_of_pos (by simpa using hempty)]
    exact hproperties

end TagSource

end TagTemplate
