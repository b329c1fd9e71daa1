import TagTemplate.Properties.Definition
import TagTemplate.Proofs.QuotedSplit

/-!
# Property strings read back

A property string is read in four steps: it is split into segments, a segment is split into a name
and a value, the value is split into the parts of a legacy value, and the text is unquoted. Each
step counts quotes for itself, and trims what it finds.

Written properties survive all of them, because a value is written as a quotation: that is sealed
against every delimiter, and its quotes protect the blanks in it from trimming. A name is written as
it is, so it has to be a `PlainName`; then a segment is sealed, and takes apart into its name and
its quotation (`ofSegment?_segment`).
-/

namespace TagTemplate.Properties

/-- A name that can be written into a property string as it is. -/
structure PlainName (name : Text) : Prop where
  ne_nil : name ≠ []
  /-- It does not begin with a blank. -/
  head : ∀ c ∈ name.head?, Text.isBlank c = false
  /-- It does not end in a blank. -/
  last : ∀ c ∈ name.getLast?, Text.isBlank c = false
  no_ampersand : '&' ∉ name
  no_equals : '=' ∉ name
  no_quote : Text.quoteMark ∉ name
  /-- It does not look like the rest of an encoded separator. -/
  not_encoded : ¬Definition.encodedRest <+: name

/-- Whether a name is plain can be computed. -/
instance (name : Text) : Decidable (PlainName name) :=
  decidable_of_iff
    (name ≠ [] ∧ (name.head?.all fun c ↦ !Text.isBlank c) = true ∧
      (name.getLast?.all fun c ↦ !Text.isBlank c) = true ∧
      '&' ∉ name ∧ '=' ∉ name ∧ Text.quoteMark ∉ name ∧ ¬Definition.encodedRest <+: name)
    ⟨fun ⟨ne_nil, head, last, no_ampersand, no_equals, no_quote, not_encoded⟩ ↦
      ⟨ne_nil, (Text.all_not_isBlank_iff _).1 head, (Text.all_not_isBlank_iff _).1 last, no_ampersand,
        no_equals, no_quote, not_encoded⟩,
    fun h ↦ ⟨h.ne_nil, (Text.all_not_isBlank_iff _).2 h.head, (Text.all_not_isBlank_iff _).2 h.last,
      h.no_ampersand, h.no_equals, h.no_quote, h.not_encoded⟩⟩

namespace PlainName

variable {name : Text} (h : PlainName name)
include h

theorem firm : Text.Firm name := ⟨h.ne_nil, h.head, h.last⟩

theorem trim_eq : name.trim = name := h.firm.trim_eq

theorem cleanName_eq : Definition.cleanName name = name :=
  Definition.cleanName_of_not_prefix h.not_encoded

/-! ### A plain name with a value -/

variable {raw : Text}

theorem firm_pair (hfirm : Text.Firm raw) : Text.Firm (name ++ '=' :: raw) := by
  have hpair := h.firm.append ['='] hfirm
  rwa [List.append_assoc] at hpair

/-- A pair is sealed against every delimiter that is not in its name and does not join the name and
the value, if the value is. -/
theorem sealed_pair {delimiter : Char} (hdelimiter : delimiter ∉ name) (hjoint : delimiter ≠ '=')
    (hraw : Text.Sealed delimiter raw) : Text.Sealed delimiter (name ++ '=' :: raw) := by
  have hequals : Text.Sealed delimiter ['='] :=
    Text.sealed_of_notMem (by decide) (by simpa using hjoint)
  exact (Text.sealed_of_notMem h.no_quote hdelimiter).append (hequals.append hraw)

/-- A name and its value are told apart at the mark between them. -/
theorem split_pair (hfirm : Text.Firm raw) (hraw : Text.Sealed '=' raw) :
    Text.split '=' (name ++ '=' :: raw) = [name, raw] := by
  have hjoin : name ++ '=' :: raw = Text.join ['='] [name, raw] := by simp [Text.join]
  have hname : Text.Sealed '=' name := Text.sealed_of_notMem h.no_quote h.no_equals
  rw [hjoin]
  exact Text.split_join (by decide) (List.cons_ne_nil _ _)
    (List.forall_mem_cons.2 ⟨⟨hname, h.firm⟩, List.forall_mem_singleton.2 ⟨hraw, hfirm⟩⟩)

/-- The name is read as it is, and the value as a legacy value. -/
theorem ofSegment?_pair (hfirm : Text.Firm raw) (hraw : Text.Sealed '=' raw) :
    Definition.ofSegment? (name ++ '=' :: raw) =
      some { Definition.ofLegacy name raw with
        value := (Definition.ofLegacy name raw).value.unquote } := by
  rw [Definition.ofSegment?, h.split_pair hfirm hraw]
  simp only [h.cleanName_eq]

end PlainName

theorem firm_quote (v : Text) : Text.Firm v.quote := by
  have hmark : Text.isBlank Text.quoteMark = false := by decide
  exact ⟨by simp [Text.quote], by simp [hmark], by simp [hmark]⟩

/-! ### Segments -/

section Segment

variable {name : Text} (h : PlainName name) (v : Text)
include h

/-- A written segment is the name, the mark and the quoted value. -/
theorem segment_eq : segment (name, v) = name ++ '=' :: v.quote := by
  rw [segment, h.trim_eq]

theorem firm_segment : Text.Firm (segment (name, v)) := by
  rw [segment_eq h]
  exact h.firm_pair (firm_quote v)

/-- A written segment is sealed for the delimiters that its name does not have. -/
theorem sealed_segment {delimiter : Char} (hdelimiter : delimiter ∉ name)
    (hjoint : delimiter ≠ '=') : Text.Sealed delimiter (segment (name, v)) := by
  rw [segment_eq h]
  exact h.sealed_pair hdelimiter hjoint (Text.sealed_quote v)

/-- **A segment reads as the property that it was written for.** -/
theorem ofSegment?_segment :
    Definition.ofSegment? (segment (name, v)) = some (.plain name v) := by
  have hlegacy : Definition.ofLegacy name v.quote = .plain name v.quote := by
    rw [Definition.ofLegacy, (firm_quote v).split_eq (Text.sealed_quote v).pieces_eq]
  rw [segment_eq h, h.ofSegment?_pair (firm_quote v) (Text.sealed_quote v), hlegacy]
  simp only [Definition.plain, Text.unquote_quote]

end Segment

/-! ### Property strings -/

/-- The definitions in a property string that was written are those of its properties. -/
theorem definitions_toPropertyString {p : Properties} (h : ∀ entry ∈ p.entries, PlainName entry.1) :
    Definition.parse p.toPropertyString =
      p.entries.map fun entry ↦ .plain entry.1 entry.2 := by
  rw [Definition.parse, toPropertyString]
  by_cases hempty : p.entries = []
  · rw [hempty]
    rfl
  · have hsplit : (Text.join ['&'] (p.entries.map segment)).split '&' = p.entries.map segment := by
      refine Text.split_join (by decide) (by simpa using hempty) fun x hx ↦ ?_
      obtain ⟨⟨name, v⟩, hentry, rfl⟩ := List.mem_map.1 hx
      have hname := h _ hentry
      exact ⟨sealed_segment hname v hname.no_ampersand (by decide), firm_segment hname v⟩
    rw [hsplit, List.filterMap_map, ← List.filterMap_eq_map]
    exact List.filterMap_congr fun entry hentry ↦ ofSegment?_segment (h entry hentry) entry.2

/-- Plain definitions make the properties that they are the definitions of. -/
theorem ofList_plain (p : Properties) :
    ofList ((p.entries.map fun entry ↦ Definition.plain entry.1 entry.2).map fun d ↦
      (d.name, d.value)) = p := by
  rw [List.map_map]
  have hentries : p.entries.map ((fun d : Definition ↦ (d.name, d.value)) ∘ fun entry ↦
      .plain entry.1 entry.2) = p.entries := List.map_id p.entries
  rw [hentries, ofList_entries]

/-- **Written properties read back**: the same names, with the same texts, in the same order,
whatever the texts are. -/
theorem parse_toPropertyString (p : Properties) (h : ∀ entry ∈ p.entries, PlainName entry.1) :
    parse p.toPropertyString = p := by
  rw [parse, definitions_toPropertyString h, List.map_map]
  have hentries : p.entries.map ((fun d : Definition ↦ (d.name, d.value)) ∘ fun entry ↦
      .plain entry.1 entry.2) = p.entries := List.map_id p.entries
  rw [hentries, ofList_entries]

/-- Properties with delimiters, quotes and blanks in every place where they could do harm. -/
def hostile : Properties :=
  ⟨[("css; note".toList, " color: `red`; & ".toList), ("q?".toList, "``".toList),
    ("amp".toList, []), ("eq".toList, "a=b&c=`;\n".toList)], by decide⟩

/-- Values with delimiters, quotes and separators in them are read back. -/
theorem hostile_reads_back :
    (∀ entry ∈ hostile.entries, PlainName entry.1) ∧ parse hostile.toPropertyString = hostile := by
  have hnames : ∀ entry ∈ hostile.entries, PlainName entry.1 := by decide
  exact ⟨hnames, parse_toPropertyString hostile hnames⟩

end TagTemplate.Properties
