import TagTemplate.Proofs.JoinedProperties
import TagTemplate.Proofs.QuotedCuts
import TagTemplate.Proofs.Trimming

/-!
# Encoded separators

A separator that was written `&amp;` is read as an `&` with `amp;` at the start of the segment
behind it, and that start is removed from the name that is read from the segment. By then the name
has been trimmed, as a part of the segment that begins with `amp;`; what is left of it is not
trimmed again, and it may be empty.

So the two separators mean the same in front of a segment that is `Flush`, which begins with its
name. Blanks in front of the name are a part of it behind an encoded separator and not behind a
plain one; and in front of an equal sign the name is empty behind an encoded separator, and missing
behind a plain one. Of the segments that are not flush, the separators agree only on those that are
dropped behind either of them (`encoded_separators_agree`).

A segment is told by its pieces at equal signs. Without the empty ones these are its parts behind a
plain separator; behind an encoded one the first of them counts in any case, since it begins with
`amp;` (`segments_encodedRest_append`).
-/

namespace TagTemplate

namespace Text

variable {delimiter quote c : Char}

/-- The first piece begins with the first character, unless that cuts. -/
theorem exists_pieces_cons (hc : c ≠ delimiter) (t : Text) :
    ∃ x xs, pieces delimiter quote false (c :: t) = (c :: x) :: xs := by
  have hhead (quoted : Bool) :
      ∃ x xs, (pieces delimiter quote quoted t).modifyHead (c :: ·) = (c :: x) :: xs := by
    obtain ⟨x, xs, hxs⟩ := List.exists_cons_of_ne_nil (pieces_ne_nil delimiter quote quoted t)
    exact ⟨x, xs, by rw [hxs]; rfl⟩
  rw [pieces, if_neg fun hcut : c = delimiter ∧ _ ↦ hc hcut.1]
  split
  · exact hhead _
  · exact hhead _

/-- A text begins with its first piece. -/
theorem prefix_of_pieces {t x : Text} {xs : List Text}
    (h : pieces delimiter quoteMark false t = x :: xs) : x <+: t := by
  rw [← join_pieces delimiter false t, h]
  rcases xs with - | ⟨y, ys⟩
  · exact List.prefix_refl _
  · exact ⟨[delimiter] ++ join [delimiter] (y :: ys), by
      rw [join_cons (List.cons_ne_nil y ys), List.append_assoc]⟩

end Text

namespace Definition

variable {s : Text}

/-! ### What is read from the parts of a segment -/

/-- The definition that is read from a name and a value. -/
def ofPair (name raw : Text) : Definition :=
  let definition := ofLegacy (cleanName name) raw
  { definition with value := definition.value.unquote }

/-- What is read from the parts of a segment. -/
def ofParts? : List Text → Option Definition
  | [name, raw] => some (ofPair name raw)
  | _ => none

/-- A segment with any other number of parts than two is dropped. -/
theorem ofParts?_of_length {parts : List Text} (h : parts.length ≠ 2) : ofParts? parts = none := by
  rcases parts with - | ⟨x, - | ⟨y, - | ⟨z, zs⟩⟩⟩
  · rfl
  · rfl
  · exact absurd rfl h
  · rfl

/-- A segment is read from its parts around `=`, which need no trimming beforehand. -/
theorem ofSegment?_eq (s : Text) :
    ofSegment? s = ofParts? (Text.segments '=' Text.quoteMark s) := by
  have hsplit : ofSegment? s = ofParts? (s.split '=') := by
    rw [ofSegment?]
    rcases s.split '=' with - | ⟨x, - | ⟨y, - | ⟨z, zs⟩⟩⟩ <;> rfl
  rw [hsplit, Text.split, Text.splitQuoted]
  split
  · rw [if_pos rfl]
  · -- Without an equal sign there is at most one part.
    rename_i hnone
    have hpart : (Text.segments '=' Text.quoteMark s).length ≤ 1 := by
      rw [Text.segments, Text.pieces_of_notMem hnone]
      exact List.length_filter_le _ _
    show none = _
    rw [ofParts?_of_length (by omega)]

/-- Blanks around a segment make no difference. -/
theorem ofSegment?_trim (s : Text) : ofSegment? s.trim = ofSegment? s := by
  rw [ofSegment?_eq, Text.segments_trim (by decide), ← ofSegment?_eq]

theorem name_ofPair (name raw : Text) : (ofPair name raw).name = cleanName name := by
  show (ofLegacy (cleanName name) raw).name = cleanName name
  rw [ofLegacy]
  split
  · split <;> rfl
  · rfl

theorem ofPair_congr {name name' : Text} (h : cleanName name = cleanName name') (raw : Text) :
    ofPair name raw = ofPair name' raw := by
  rw [ofPair, h, ofPair]

/-! ### Segments behind a separator -/

/-- A segment of a property string, which leaves no quotation open, is not cut, and does not begin
with the rest of an encoded separator. -/
structure IsSegment (s : Text) : Prop where
  even : Even (s.count Text.quoteMark)
  /-- An `&` stands between the quotes of a pair. -/
  quoted : ∀ before after, s = before ++ '&' :: after → ¬Even (before.count Text.quoteMark)
  not_encoded : ¬encodedRest <+: s.trim

theorem IsSegment.sealed (h : IsSegment s) : Text.Sealed '&' s :=
  (Text.sealed_iff (by decide)).2 ⟨h.even, h.quoted⟩

/-- Whether a text is a segment can be computed. -/
instance (s : Text) : Decidable (IsSegment s) :=
  decidable_of_iff (Even (s.count Text.quoteMark) ∧
      (Text.pieces '&' Text.quoteMark false s).length = 1 ∧ ¬encodedRest <+: s.trim) <| by
    rw [Text.length_pieces_eq_one_iff (by decide)]
    exact ⟨fun ⟨even, quoted, not_encoded⟩ ↦
        ⟨even, fun before after h ↦ by simpa using quoted before after h, not_encoded⟩,
      fun h ↦ ⟨h.even, fun before after hs ↦ by simpa using h.quoted before after hs,
        h.not_encoded⟩⟩

/-- A segment that begins with its name, if it begins with anything. -/
def Flush (s : Text) : Prop := ∀ c ∈ s.head?, c ≠ '=' ∧ Text.isBlank c = false

/-- A segment that is dropped behind either separator: it does not have two parts, and behind its
first equal sign there is not one part. -/
structure Dropped (s : Text) : Prop where
  plain : (Text.tidied (Text.pieces '=' Text.quoteMark false s)).length ≠ 2
  encoded : (Text.tidied (Text.pieces '=' Text.quoteMark false s).tail).length ≠ 1

/-- Whether a segment is flush can be computed. -/
instance (s : Text) : Decidable (Flush s) :=
  decidable_of_iff ((s.head?.all fun c ↦ c != '=' && !Text.isBlank c) = true) <| by
    rcases s with - | ⟨c, s⟩ <;> simp [Flush]

/-- Whether a segment is dropped can be computed. -/
instance (s : Text) : Decidable (Dropped s) :=
  decidable_of_iff
    ((Text.tidied (Text.pieces '=' Text.quoteMark false s)).length ≠ 2 ∧
      (Text.tidied (Text.pieces '=' Text.quoteMark false s).tail).length ≠ 1)
    ⟨fun ⟨plain, encoded⟩ ↦ ⟨plain, encoded⟩, fun h ↦ ⟨h.plain, h.encoded⟩⟩

theorem firm_encodedRest : Text.Firm encodedRest := by decide

/-- Behind an encoded separator the first part of a segment is never empty, and it is trimmed at its
end only. -/
theorem segments_encodedRest_append {p : Text} {ps : List Text}
    (hp : Text.pieces '=' Text.quoteMark false s = p :: ps) :
    Text.segments '=' Text.quoteMark (encodedRest ++ s) =
      (encodedRest ++ p.trimEnd) :: Text.tidied ps := by
  have hsealed : Text.Sealed '=' encodedRest :=
    Text.sealed_of_notMem (by decide) (by decide)
  have hne : (encodedRest ++ p).trim ≠ [] := by
    rw [firm_encodedRest.trim_append]
    exact List.append_ne_nil_of_left_ne_nil firm_encodedRest.ne_nil _
  rw [Text.segments_eq_tidied, hsealed, hp, List.modifyHead_cons, Text.tidied_cons_of_ne_nil hne,
    firm_encodedRest.trim_append]

/-- The name of a segment does not begin with the rest of an encoded separator. -/
theorem IsSegment.cleanName_trim (h : IsSegment s) {p : Text} {ps : List Text}
    (hp : Text.pieces '=' Text.quoteMark false s = p :: ps) : cleanName p.trim = p.trim := by
  obtain ⟨rest, rfl⟩ := Text.prefix_of_pieces hp
  exact cleanName_of_not_prefix fun hencoded ↦
    h.not_encoded (firm_encodedRest.prefix_trim_append hencoded rest)

/-- **In front of a flush segment** both separators mean the same. -/
theorem Flush.ofSegment?_eq (hflush : Flush s) (h : IsSegment s) :
    ofSegment? (encodedRest ++ s) = ofSegment? s := by
  rcases s with - | ⟨c, s⟩
  · decide
  · obtain ⟨hc, hblank⟩ := hflush c rfl
    obtain ⟨x, ps, hp⟩ := Text.exists_pieces_cons hc s
    have hne : Text.trim (c :: x) ≠ [] := Text.trim_ne_nil List.mem_cons_self hblank
    have htrim : Text.trim (c :: x) = Text.trimEnd (c :: x) := Text.trim_of_head fun d hd ↦ by
      obtain rfl : c = d := Option.some.inj hd
      exact hblank
    have hname : cleanName (encodedRest ++ Text.trim (c :: x)) = cleanName (Text.trim (c :: x)) := by
      rw [cleanName_append, h.cleanName_trim hp]
    rw [Definition.ofSegment?_eq, segments_encodedRest_append hp, Definition.ofSegment?_eq,
      Text.segments_eq_tidied, hp, Text.tidied_cons_of_ne_nil hne, ← htrim]
    rcases Text.tidied ps with - | ⟨raw, - | ⟨z, zs⟩⟩
    · rfl
    · exact congrArg some (ofPair_congr hname raw)
    · rfl

/-- A segment that is dropped is dropped behind either separator. -/
theorem Dropped.ofSegment?_eq_none (h : Dropped s) :
    ofSegment? (encodedRest ++ s) = none ∧ ofSegment? s = none := by
  obtain ⟨p, ps, hp⟩ := List.exists_cons_of_ne_nil (Text.pieces_ne_nil '=' Text.quoteMark false s)
  have hencoded := h.encoded
  rw [hp, List.tail_cons] at hencoded
  constructor
  · rw [ofSegment?_eq, segments_encodedRest_append hp]
    exact ofParts?_of_length fun hlength ↦ hencoded (Nat.succ_injective hlength)
  · rw [ofSegment?_eq]
    exact ofParts?_of_length h.plain

/-- **In front of any other segment** the separators do not even give the same name: either one of
them gives none, or the name begins with a blank behind the encoded one only. -/
theorem IsSegment.name_ne (h : IsSegment s) (hflush : ¬Flush s) (hdropped : ¬Dropped s) :
    (ofSegment? (encodedRest ++ s)).map (·.name) ≠ (ofSegment? s).map (·.name) := by
  obtain ⟨p, ps, hp⟩ := List.exists_cons_of_ne_nil (Text.pieces_ne_nil '=' Text.quoteMark false s)
  have hread : (Text.tidied (p :: ps)).length = 2 ∨ (Text.tidied ps).length = 1 := by
    by_contra hneither
    rw [not_or] at hneither
    exact hdropped ⟨by rw [hp]; exact hneither.1, by rw [hp]; exact hneither.2⟩
  rw [ofSegment?_eq, segments_encodedRest_append hp, ofSegment?_eq, Text.segments_eq_tidied, hp]
  by_cases hempty : p.trim = []
  · -- The first part is missing behind the plain separator.
    rw [Text.tidied_cons_of_nil hempty] at hread ⊢
    rcases hparts : Text.tidied ps with - | ⟨x, - | ⟨y, - | ⟨z, zs⟩⟩⟩
    · rw [hparts] at hread
      simp at hread
    · exact Option.some_ne_none _
    · exact (Option.some_ne_none _).symm
    · rw [hparts] at hread
      simp at hread
  · rw [Text.tidied_cons_of_ne_nil hempty] at hread ⊢
    have hone : (Text.tidied ps).length = 1 := by
      rw [List.length_cons] at hread
      omega
    obtain ⟨raw, hparts⟩ := List.length_eq_one_iff.1 hone
    rw [hparts]
    show some (ofPair (encodedRest ++ p.trimEnd) raw).name ≠ some (ofPair p.trim raw).name
    rw [name_ofPair, cleanName_append, name_ofPair, h.cleanName_trim hp]
    -- The segment begins with a blank, and so does its first piece.
    rcases s with - | ⟨c, s⟩
    · exact absurd nofun hflush
    · have hc : c ≠ '=' := by
        rintro rfl
        obtain rfl : [] = p := (List.cons.inj hp).1
        exact hempty rfl
      have hblank : Text.isBlank c = true := by
        by_contra hblank
        refine hflush fun d hd ↦ ?_
        obtain rfl : c = d := Option.some.inj hd
        exact ⟨hc, by simpa using hblank⟩
      obtain ⟨x, xs, hx⟩ := Text.exists_pieces_cons hc s
      obtain rfl : c :: x = p := (List.cons.inj (hx.symm.trans hp)).1
      exact fun hsame ↦ Text.trimEnd_ne_trim hblank hempty (Option.some.inj hsame)

/-! ### Property strings -/

/-- The separator of property strings. -/
def separator : Text := ['&']

/-- The separator, encoded for HTML. -/
def encodedSeparator : Text := separator ++ encodedRest

/-- Each text behind a separator is read for itself, if none of them leaves a quotation open. -/
theorem parse_flatMap {rest : Text} (hrest : Text.Sealed '&' rest) {ss : List Text}
    (h : ∀ s ∈ ss, Text.Sealed '&' s) :
    parse (ss.flatMap (separator ++ rest ++ ·)) =
      ss.flatMap fun s ↦ (ofSegment? (rest ++ s)).toList := by
  -- In front of the first separator there is a sealed text too, if it is only the empty one.
  have hbehind {x : Text} (hx : Text.Sealed '&' x) :
      parse (x ++ ss.flatMap (separator ++ rest ++ ·)) =
        (ofSegment? x).toList ++ ss.flatMap fun s ↦ (ofSegment? (rest ++ s)).toList := by
    induction ss generalizing x with
    | nil =>
      rw [List.flatMap_nil, List.flatMap_nil, List.append_nil, List.append_nil, parse_of_sealed hx,
        ofSegment?_trim]
    | cons s ss ih =>
      obtain ⟨hs, hss⟩ := List.forall_mem_cons.1 h
      rw [List.flatMap_cons, List.flatMap_cons]
      show parse (x ++ '&' :: (rest ++ s ++ ss.flatMap (separator ++ rest ++ ·))) = _
      rw [parse_sealed_append hx, ofSegment?_trim, ih hss (hrest.append hs)]
  exact hbehind Text.sealed_nil

/-- Segments behind plain separators are read one by one. -/
theorem parse_flatMap_separator {ss : List Text} (h : ∀ s ∈ ss, IsSegment s) :
    parse (ss.flatMap (separator ++ ·)) = ss.flatMap fun s ↦ (ofSegment? s).toList :=
  parse_flatMap Text.sealed_nil fun s hs ↦ (h s hs).sealed

/-- Segments behind encoded separators are read one by one, each with the rest of its separator in
front. -/
theorem parse_flatMap_encodedSeparator {ss : List Text} (h : ∀ s ∈ ss, IsSegment s) :
    parse (ss.flatMap (encodedSeparator ++ ·)) =
      ss.flatMap fun s ↦ (ofSegment? (encodedRest ++ s)).toList :=
  parse_flatMap (Text.sealed_of_notMem (by decide) (by decide)) fun s hs ↦ (h s hs).sealed

end Definition

namespace Properties

open Definition

/-- A definition is told from none, and from one with another name, by the names of the properties
that it makes. -/
theorem head?_keys_ofList (definition? : Option Definition) :
    (ofList (definition?.toList.map fun definition ↦
      (definition.name, definition.value))).keys.head? = definition?.map (·.name) := by
  rcases definition? with - | definition <;> rfl

/-- **Encoded separators mean the same as plain ones** in front of segments that are flush or
dropped. In front of any other segment they do not. -/
theorem encoded_separators_agree (ss : List Text) (h : ∀ s ∈ ss, IsSegment s) :
    ((∀ s ∈ ss, Flush s ∨ Dropped s) →
      parse (ss.flatMap (encodedSeparator ++ ·)) = parse (ss.flatMap (separator ++ ·))) ∧
    ∀ s ∈ ss, (parse (encodedSeparator ++ s) = parse (separator ++ s) ↔ Flush s ∨ Dropped s) := by
  have hsame {ss : List Text} (hss : ∀ s ∈ ss, IsSegment s)
      (hagree : ∀ s ∈ ss, Flush s ∨ Dropped s) :
      parse (ss.flatMap (encodedSeparator ++ ·)) = parse (ss.flatMap (separator ++ ·)) := by
    rw [parse, parse_flatMap_encodedSeparator hss, parse, parse_flatMap_separator hss]
    refine congrArg (fun ds : List Definition ↦ ofList (ds.map _)) (List.flatMap_congr fun s hs ↦ ?_)
    rcases hagree s hs with hflush | hdropped
    · rw [hflush.ofSegment?_eq (hss s hs)]
    · rw [hdropped.ofSegment?_eq_none.1, hdropped.ofSegment?_eq_none.2]
  refine ⟨hsame h, fun s hs ↦ ?_⟩
  have hone : ∀ x ∈ [s], IsSegment x := List.forall_mem_singleton.2 (h s hs)
  have hencoded := parse_flatMap_encodedSeparator hone
  have hplain := parse_flatMap_separator hone
  rw [List.flatMap_singleton, List.flatMap_singleton] at hencoded hplain
  constructor
  · intro hparse
    by_contra hneither
    rw [not_or] at hneither
    refine (h s hs).name_ne hneither.1 hneither.2 ?_
    rw [← head?_keys_ofList, ← hencoded, ← head?_keys_ofList, ← hplain]
    exact congrArg (·.keys.head?) hparse
  · intro hagree
    have hstrings := hsame hone (List.forall_mem_singleton.2 hagree)
    rwa [List.flatMap_singleton, List.flatMap_singleton] at hstrings

/-- Segments that begin with their names, one of them with an encoded separator in its value, and
segments that are dropped: empty ones, and ones with too few or too many parts, with or without
blanks in front. -/
def tidy : List Text :=
  ["a=`1&amp;=2`".toList, [], "broken".toList, " \t".toList, " broken ".toList, " = ".toList,
    "a=b=c".toList, " x=y=z".toList, "b = Kind; list; x,y; `y` ".toList]

/-- These segments are flush or dropped, and so they are read alike behind both separators. -/
theorem tidy_agree : (∀ s ∈ tidy, IsSegment s) ∧ (∀ s ∈ tidy, Flush s ∨ Dropped s) ∧
    parse (tidy.flatMap (encodedSeparator ++ ·)) =
      ⟨[("a".toList, "1&amp;=2".toList), ("b".toList, "y".toList)], by decide⟩ ∧
    parse (encodedSeparator ++ " broken ".toList) = parse (separator ++ " broken ".toList) := by
  have hsegments : ∀ s ∈ tidy, IsSegment s := by decide
  have hagree : ∀ s ∈ tidy, Flush s ∨ Dropped s := by decide
  obtain ⟨hall, hone⟩ := encoded_separators_agree tidy hsegments
  refine ⟨hsegments, hagree, (hall hagree).trans (by decide), ?_⟩
  exact (hone _ (by decide)).2 (by decide)

/-- **They do not always mean the same**: behind an encoded separator the name begins with the blank
that stands in front of it. -/
theorem blank_not_agree : (∀ s ∈ [" a=`1`".toList], IsSegment s) ∧
    parse ([" a=`1`".toList].flatMap (separator ++ ·)) = ⟨[("a".toList, "1".toList)], by decide⟩ ∧
    parse ([" a=`1`".toList].flatMap (encodedSeparator ++ ·)) =
      ⟨[(" a".toList, "1".toList)], by decide⟩ ∧
    parse ([" a=`1`".toList].flatMap (encodedSeparator ++ ·)) ≠
      parse ([" a=`1`".toList].flatMap (separator ++ ·)) := by
  decide

end Properties

end TagTemplate
