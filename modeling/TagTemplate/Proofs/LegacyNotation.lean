import TagTemplate.Proofs.PropertyString

/-!
# Legacy values read back

A legacy value describes its property: it has a description and a type in front of the text, and the
choices in between if the type offers any. Which part is which is told by their positions, counted
after empty parts have been dropped; how many there have to be is told by the type.

So the parts in front have to be written so that they stay what they are in each of the three steps
of splitting: none of them may be cut, opened as a quotation, or lost by trimming (`PlainPart`). The
text itself is a quotation, which no delimiter cuts, whatever is quoted. The choices share one part
and are separated in a fourth step, which knows neither blanks nor quotations; it takes apart what
was joined as long as there is no comma in a choice (`PlainChoices`), so a choice may even be empty
if the part that it shares is not.
-/

namespace TagTemplate

namespace Text

/-- Texts without the mark are the pieces of what is joined from them. -/
theorem splitAt_join {mark : Char} {xs : List Text} (hxs : xs ≠ []) (h : ∀ x ∈ xs, mark ∉ x) :
    splitAt mark (join [mark] xs) = xs := by
  induction xs with
  | nil => exact absurd rfl hxs
  | cons x xs ih =>
    obtain ⟨hx, hrest⟩ := List.forall_mem_cons.1 h
    rcases eq_or_ne xs [] with rfl | hne
    · exact splitAt_of_notMem hx
    · rw [join_cons hne, List.append_assoc, List.singleton_append, splitAt_append_mark,
        splitAt_of_notMem hx, ih hne hrest, List.singleton_append]

/-- A character that is in no part and not in the mark is not in the joined text. -/
theorem notMem_join {c : Char} {mark : Text} (hmark : c ∉ mark) {xs : List Text}
    (h : ∀ x ∈ xs, c ∉ x) : c ∉ join mark xs := by
  induction xs with
  | nil => exact List.not_mem_nil
  | cons x xs ih =>
    obtain ⟨hx, hrest⟩ := List.forall_mem_cons.1 h
    rcases eq_or_ne xs [] with rfl | hne
    · exact hx
    · rw [join_cons hne, List.mem_append, List.mem_append, not_or, not_or]
      exact ⟨⟨hx, hmark⟩, ih hrest⟩

end Text

namespace Properties

/-! ### Parts of legacy values -/

/-- None of the characters is in the text. -/
def Without (marks : List Char) (t : Text) : Prop := ∀ c ∈ marks, c ∉ t

/-- Whether none of the characters is in a text can be computed. -/
instance (marks : List Char) (t : Text) : Decidable (Without marks t) :=
  decidable_of_iff ((marks.all fun c ↦ !t.contains c) = true) (by simp [Without])

/-- The characters that cut or quote when a legacy value is read. -/
def partMarks : List Char := ['&', '=', ';', Text.quoteMark]

/-- A part that can be written into a legacy value as it is. -/
structure PlainPart (part : Text) : Prop where
  firm : Text.Firm part
  no_mark : Without partMarks part

/-- Choices that can be written into a legacy value as they are. Each of them may be empty, or begin
or end with blanks, but not so that the part that they share does. -/
structure PlainChoices (choices : List Text) : Prop where
  firm : Text.Firm (Text.join [','] choices)
  no_mark : ∀ choice ∈ choices, Without (',' :: partMarks) choice

/-- Whether a part is plain can be computed. -/
instance (part : Text) : Decidable (PlainPart part) :=
  decidable_of_iff (Text.Firm part ∧ Without partMarks part)
    ⟨fun ⟨firm, no_mark⟩ ↦ ⟨firm, no_mark⟩, fun h ↦ ⟨h.firm, h.no_mark⟩⟩

/-- Whether choices are plain can be computed. -/
instance (choices : List Text) : Decidable (PlainChoices choices) :=
  decidable_of_iff
    (Text.Firm (Text.join [','] choices) ∧ ∀ choice ∈ choices, Without (',' :: partMarks) choice)
    ⟨fun ⟨firm, no_mark⟩ ↦ ⟨firm, no_mark⟩, fun h ↦ ⟨h.firm, h.no_mark⟩⟩

theorem PlainPart.sealed {part : Text} (h : PlainPart part) {delimiter : Char}
    (hdelimiter : delimiter ∈ partMarks) : Text.Sealed delimiter part :=
  Text.sealed_of_notMem (h.no_mark Text.quoteMark (by decide)) (h.no_mark delimiter hdelimiter)

namespace PlainChoices

variable {choices : List Text} (h : PlainChoices choices)
include h

/-- Choices that are joined with commas make a plain part. -/
theorem plainPart : PlainPart (Text.join [','] choices) where
  firm := h.firm
  no_mark c hc := by
    have hcomma : c ≠ ',' := by
      rintro rfl
      exact absurd hc (by decide)
    exact Text.notMem_join (by simpa using hcomma) fun choice hchoice ↦
      h.no_mark choice hchoice c (List.mem_cons_of_mem _ hc)

/-- Joined choices are split at their commas again. -/
theorem splitAt_join : (Text.join [','] choices).splitAt ',' = choices := by
  refine Text.splitAt_join ?_ fun choice hchoice ↦ h.no_mark choice hchoice ',' List.mem_cons_self
  rintro rfl
  exact h.firm.ne_nil rfl

end PlainChoices

/-! ### Legacy values -/

/-- The parts of a legacy value for a text. There are choices only for the types that offer some. -/
def legacyParts (description type : Text) (choices : List Text) (v : Text) : List Text :=
  if FieldType.offersChoices type then [description, type, Text.join [','] choices, v.quote]
  else [description, type, v.quote]

/-- A property with a legacy value, as a segment of a property string. -/
def legacySegment (name description type : Text) (choices : List Text) (v : Text) : Text :=
  name ++ '=' :: Text.join [';'] (legacyParts description type choices v)

section Legacy

variable {name description type : Text} {choices : List Text}
  (hdescription : PlainPart description) (htype : PlainPart type)
  (hchoices : FieldType.offersChoices type = true → PlainChoices choices) (v : Text)

theorem legacyParts_ne_nil : legacyParts description type choices v ≠ [] := by
  rw [legacyParts]
  split <;> exact List.cons_ne_nil _ _

include hdescription htype hchoices

/-- A part is plain, or it is the quotation. -/
theorem plainPart_or_eq_quote {x : Text} (hx : x ∈ legacyParts description type choices v) :
    PlainPart x ∨ x = v.quote := by
  rw [legacyParts] at hx
  split at hx
  · rename_i hoffers
    rcases (by simpa using hx : x = description ∨ x = type ∨ x = Text.join [','] choices ∨
      x = v.quote) with rfl | rfl | rfl | rfl
    · exact .inl hdescription
    · exact .inl htype
    · exact .inl (hchoices hoffers).plainPart
    · exact .inr rfl
  · rcases (by simpa using hx : x = description ∨ x = type ∨ x = v.quote) with rfl | rfl | rfl
    · exact .inl hdescription
    · exact .inl htype
    · exact .inr rfl

/-- Nothing is cut inside of a part, and trimming leaves it alone. -/
theorem sealed_and_firm_of_mem_legacyParts {delimiter : Char} (hdelimiter : delimiter ∈ partMarks)
    {x : Text} (hx : x ∈ legacyParts description type choices v) :
    Text.Sealed delimiter x ∧ Text.Firm x := by
  rcases plainPart_or_eq_quote hdescription htype hchoices v hx with hpart | rfl
  · exact ⟨hpart.sealed hdelimiter, hpart.firm⟩
  · exact ⟨Text.sealed_quote v, firm_quote v⟩

/-- No delimiter but the one between the parts is open in the legacy form. -/
theorem sealed_legacy {delimiter : Char} (hdelimiter : delimiter ∈ partMarks)
    (hjoint : delimiter ≠ ';') :
    Text.Sealed delimiter (Text.join [';'] (legacyParts description type choices v)) :=
  Text.sealed_join (Text.sealed_of_notMem (by decide) (by simpa using hjoint)) fun _ hx ↦
    (sealed_and_firm_of_mem_legacyParts hdescription htype hchoices v hdelimiter hx).1

theorem firm_legacy : Text.Firm (Text.join [';'] (legacyParts description type choices v)) :=
  Text.Firm.join [';'] (legacyParts_ne_nil v) fun _ hx ↦
    (sealed_and_firm_of_mem_legacyParts hdescription htype hchoices v
      (show ';' ∈ partMarks by decide) hx).2

/-- The legacy form is split into its parts again. -/
theorem split_legacy : (Text.join [';'] (legacyParts description type choices v)).split ';' =
    legacyParts description type choices v :=
  Text.split_join (by decide) (legacyParts_ne_nil v) fun _ hx ↦
    sealed_and_firm_of_mem_legacyParts hdescription htype hchoices v (by decide) hx

/-- The value is read for what its parts say. -/
theorem ofLegacy_join :
    Definition.ofLegacy name (Text.join [';'] (legacyParts description type choices v)) =
      ⟨name, description, .ofToken type,
        if FieldType.offersChoices type then choices.map .ofValue else [], v.quote⟩ := by
  rw [Definition.ofLegacy, split_legacy hdescription htype hchoices v, legacyParts]
  rcases hoffers : FieldType.offersChoices type with - | -
  · simp only [hoffers, Bool.false_eq_true, if_false]
  · simp only [hoffers, if_true, (hchoices hoffers).splitAt_join]

end Legacy

/-- **A legacy value reads back**: one definition, with the name, the description, the type and the
choices that it was written from, and with the text, whatever that is. -/
theorem legacy_reads_back {name description type : Text} {choices : List Text} (v : Text)
    (hname : PlainName name) (hdescription : PlainPart description) (htype : PlainPart type)
    (hchoices : FieldType.offersChoices type = true → PlainChoices choices) :
    Definition.parse (legacySegment name description type choices v) =
      [⟨name, description, .ofToken type,
        if FieldType.offersChoices type then choices.map .ofValue else [], v⟩] := by
  have hfirm := firm_legacy hdescription htype hchoices v
  have hequals : Text.Sealed '=' (Text.join [';'] (legacyParts description type choices v)) :=
    sealed_legacy hdescription htype hchoices v (by decide) (by decide)
  have hampersand : Text.Sealed '&' (Text.join [';'] (legacyParts description type choices v)) :=
    sealed_legacy hdescription htype hchoices v (by decide) (by decide)
  have hsegment : (legacySegment name description type choices v).split '&' =
      [legacySegment name description type choices v] :=
    (hname.firm_pair hfirm).split_eq
      (hname.sealed_pair hname.no_ampersand (by decide) hampersand).pieces_eq
  rw [Definition.parse, hsegment, List.filterMap_cons, legacySegment,
    hname.ofSegment?_pair hfirm hequals, ofLegacy_join hdescription htype hchoices v,
    List.filterMap_nil]
  simp only [Text.unquote_quote]

/-- A text with every delimiter, quotes in a row and blanks at its ends. -/
def tangledText : Text := " a=`1`;&x,y``;list;` ".toList

/-- Choices of which one is empty and one has blanks at its ends. -/
def oddChoices : List Text := ["asc".toList, [], " b ".toList, "ß c".toList]

/-- A name with marks in it and the odd choices are read back, and so is the value. -/
theorem oddChoices_read_back :
    PlainName "sort; amp;".toList ∧ PlainPart "Sort, order".toList ∧
      PlainPart "list".toList ∧ PlainPart "int".toList ∧ PlainChoices oddChoices ∧
    Definition.parse
        (legacySegment "sort; amp;".toList "Sort, order".toList "list".toList oddChoices tangledText) =
      [⟨"sort; amp;".toList, "Sort, order".toList, .list,
        [⟨"Asc".toList, "asc".toList⟩, ⟨[], []⟩, ⟨" b ".toList, " b ".toList⟩,
          ⟨"SS c".toList, "ß c".toList⟩], tangledText⟩] ∧
    Definition.parse
        (legacySegment "sort; amp;".toList "Sort, order".toList "int".toList [] tangledText) =
      [⟨"sort; amp;".toList, "Sort, order".toList, .number, [], tangledText⟩] := by
  have hname : PlainName "sort; amp;".toList := by decide
  have hdescription : PlainPart "Sort, order".toList := by decide
  have hlist : PlainPart "list".toList := by decide
  have hint : PlainPart "int".toList := by decide
  have hchoices : PlainChoices oddChoices := by decide
  refine ⟨hname, hdescription, hlist, hint, hchoices, ?_, ?_⟩
  · exact (legacy_reads_back tangledText hname hdescription hlist fun _ ↦ hchoices).trans (by decide)
  · exact (legacy_reads_back tangledText hname hdescription hint fun hoffers ↦
      absurd hoffers (by decide)).trans (by decide)

end Properties

end TagTemplate
