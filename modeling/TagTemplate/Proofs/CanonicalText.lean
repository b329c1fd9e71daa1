import TagTemplate.Proofs.PropertyString
import TagTemplate.Proofs.QuotedCuts
import TagTemplate.Proofs.TagScan
import TagTemplate.Tag.Basic

/-!
# The text of a tag tells which tag it is

While the content of a tag is resolved, the tag is recognised by its text. For a tag that was made
from its parts that is its canonical text: the token, the name as written, and the properties that
the tag has of itself, as a property string behind a question mark.

Two tags with one canonical text would be taken for one another. That does not happen to tags that
are `Canonical`, because their text is read as the parts that it was made from (`read_canonical`):
the two parts are taken apart where they were joined. Question marks in filter arguments stand
between quotes, and the quotes of the name pair up, so the name is sealed against question marks;
the values are quotations, which are sealed whatever they quote; and neither part has a blank at an
end that trimming would take away.
-/

namespace TagTemplate

/-! ### Property strings as arguments -/

namespace Properties

variable {p : Properties} (h : ∀ entry ∈ p.entries, PlainName entry.1 ∧ '?' ∉ entry.1)
include h

/-- A property string whose names have no question mark is not cut at one. -/
theorem sealed_toPropertyString : Text.Sealed '?' p.toPropertyString := by
  refine Text.sealed_join (Text.sealed_of_notMem (by decide) (by decide)) fun x hx ↦ ?_
  obtain ⟨entry, hentry, rfl⟩ := List.mem_map.1 hx
  obtain ⟨hname, hquestion⟩ := h entry hentry
  exact sealed_segment hname entry.2 hquestion (by decide)

/-- Properties that are not empty are written firmly: every definition is, and so they are
together. -/
theorem firm_toPropertyString (hne : p.entries ≠ []) : Text.Firm p.toPropertyString := by
  refine Text.Firm.join _ (by simpa using hne) fun x hx ↦ ?_
  obtain ⟨entry, hentry, rfl⟩ := List.mem_map.1 hx
  exact firm_segment (h entry hentry).1 entry.2

/-- **Written properties are found again** behind the question mark. -/
theorem properties_toPropertyString :
    ((if p.isEmpty then none else some p.toPropertyString).map parse).getD empty = p := by
  obtain ⟨_ | ⟨entry, entries⟩, hdistinct⟩ := p
  · rfl
  · have hdefinitions := definitions_toPropertyString fun entry hentry ↦ (h entry hentry).1
    show parse _ = _
    rw [parse, hdefinitions, ofList_plain]

end Properties

/-! ### What a canonical text is read as -/

namespace TagSource

/-- **A name and arguments are read as what they were joined from**, if each of them is sealed and
has no blank at an end that counts. -/
theorem read_join (kind : TagKind) {rawName : Text} {arguments : Option Text}
    (hname : Text.Sealed '?' rawName) (hlast : ∀ c ∈ rawName.getLast?, Text.isBlank c = false)
    (harguments : ∀ t ∈ arguments, Text.Sealed '?' t ∧ t.Firm) :
    read (Text.join ['?'] ((kind.token :: rawName) :: arguments.toList)) =
      ⟨false, kind, rawName, arguments⟩ := by
  have htoken : kind.token ≠ '?' ∧ kind.token ≠ Text.quoteMark ∧
      Text.isBlank kind.token = false := by
    cases kind <;> decide
  have hsealed : Text.Sealed '?' (kind.token :: rawName) :=
    (Text.sealed_of_notMem (x := [kind.token]) (by simpa using htoken.2.1.symm)
      (by simpa using htoken.1.symm)).append hname
  -- The token is not blank, so that the name needs no proper start of its own.
  have hfirm : Text.Firm (kind.token :: rawName) := by
    refine ⟨List.cons_ne_nil _ _, by simpa using htoken.2.2, fun c hc ↦ ?_⟩
    rw [List.getLast?_cons] at hc
    cases hend : rawName.getLast? with
    | none =>
      rw [hend] at hc
      obtain rfl : kind.token = c := Option.some.inj hc
      exact htoken.2.2
    | some last =>
      rw [hend] at hc
      obtain rfl : last = c := Option.some.inj hc
      exact hlast last hend
  -- So the two parts are told apart where they were joined.
  have hparts : (Text.join ['?'] ((kind.token :: rawName) :: arguments.toList)).splitQuoted '?'
      Text.quoteMark 2 = (kind.token :: rawName) :: arguments.toList := by
    refine Text.splitQuoted_join (by decide) (List.cons_ne_nil _ _) (.inr ?_) ?_
    · cases arguments <;> simp
    · rw [List.forall_mem_cons]
      exact ⟨⟨hsealed, hfirm⟩, fun t ht ↦ harguments t (Option.mem_toList.1 ht)⟩
  rw [read, hparts]
  cases kind <;> cases arguments <;> rfl

end TagSource

namespace Tag

/-- A tag that was made from its parts, with parts that can be told apart in its text. -/
structure Canonical (tag : Tag) : Prop where
  unwritten : tag.written = none
  /-- The name does not end in a blank. -/
  last : ∀ c ∈ tag.rawName.getLast?, Text.isBlank c = false
  /-- The quotes of the name pair up. -/
  even : Even (tag.rawName.count Text.quoteMark)
  /-- Every question mark of the name stands between the quotes of a pair. -/
  quoted : ∀ before after, tag.rawName = before ++ '?' :: after →
    ¬Even (before.count Text.quoteMark)
  names : ∀ entry ∈ tag.defaults.entries, Properties.PlainName entry.1 ∧ '?' ∉ entry.1

/-- Whether a tag is canonical can be computed. -/
instance (tag : Tag) : Decidable tag.Canonical :=
  have hquoted : (Text.pieces '?' Text.quoteMark false tag.rawName).length = 1 ↔
      ∀ before after, tag.rawName = before ++ '?' :: after →
        ¬Even (before.count Text.quoteMark) := by
    rw [Text.length_pieces_eq_one_iff (by decide)]
    simp
  decidable_of_iff
    (tag.written = none ∧ (tag.rawName.getLast?.all fun c ↦ !Text.isBlank c) = true ∧
      Even (tag.rawName.count Text.quoteMark) ∧
      (Text.pieces '?' Text.quoteMark false tag.rawName).length = 1 ∧
      ∀ entry ∈ tag.defaults.entries, Properties.PlainName entry.1 ∧ '?' ∉ entry.1)
    ⟨fun ⟨unwritten, last, even, quoted, names⟩ ↦
      ⟨unwritten, (Text.all_not_isBlank_iff _).1 last, even, hquoted.1 quoted, names⟩,
    fun h ↦ ⟨h.unwritten, (Text.all_not_isBlank_iff _).2 h.last, h.even,
      hquoted.2 h.quoted, h.names⟩⟩

/-- What a tag has of itself, as a property string; nothing, if there is no property. -/
def arguments? (tag : Tag) : Option Text :=
  if tag.defaults.isEmpty then none else some tag.defaults.toPropertyString

/-- The written tag, with the name and the arguments joined by the mark that parts them. -/
theorem canonicalText_eq (tag : Tag) :
    tag.canonicalText = Delimiters.brackets.wrap
      (Text.join ['?'] ((tag.kind.token :: tag.rawName) :: tag.arguments?.toList)) := by
  rw [canonicalText, arguments?]
  split
  · rw [List.append_nil]
    rfl
  · rw [Option.toList_some, Text.join_cons (List.cons_ne_nil _ _), List.append_assoc]
    rfl

/-- The inner text of a canonical tag is read as the parts of the tag. -/
theorem read_canonical {tag : Tag} (h : tag.Canonical) :
    TagSource.read (Text.join ['?'] ((tag.kind.token :: tag.rawName) :: tag.arguments?.toList)) =
      ⟨false, tag.kind, tag.rawName, tag.arguments?⟩ := by
  refine TagSource.read_join tag.kind ((Text.sealed_iff (by decide)).2 ⟨h.even, h.quoted⟩) h.last
    fun t ht ↦ ?_
  rw [arguments?] at ht
  split at ht
  · cases ht
  · rename_i hsome
    obtain rfl := Option.some.inj ht
    exact ⟨Properties.sealed_toPropertyString h.names,
      Properties.firm_toPropertyString h.names fun hnil ↦ hsome (by simp [Properties.isEmpty, hnil])⟩

/-- **The text of a canonical tag identifies it.** Between its brackets, the text is read as the
kind of the tag, its name as written, and so the same name with the same filters, and exactly its
properties in their order. So canonical tags with the same text have the same parts. -/
theorem text_identifies {tag : Tag} (h : tag.Canonical) :
    (∃ inner, tag.text = Delimiters.brackets.wrap inner ∧
      (TagSource.read inner).uncacheable = false ∧
      (TagSource.read inner).kind = tag.kind ∧
      (TagSource.read inner).rawName = tag.rawName ∧
      ((TagSource.read inner).rawProperties.map Properties.parse).getD .empty = tag.defaults ∧
      ∀ written, (ofSource (TagSource.read inner) written).name = tag.name ∧
        (ofSource (TagSource.read inner) written).filters = tag.filters) ∧
    ∀ other : Tag, other.Canonical → other.text = tag.text →
      other.kind = tag.kind ∧ other.rawName = tag.rawName ∧ other.name = tag.name ∧
        other.filters = tag.filters ∧ other.defaults = tag.defaults := by
  have htext {tag : Tag} (h : tag.Canonical) : tag.text = tag.canonicalText := by
    rw [text, h.unwritten, Option.getD_none]
  have hdefaults {tag : Tag} (h : tag.Canonical) :
      (tag.arguments?.map Properties.parse).getD .empty = tag.defaults :=
    Properties.properties_toPropertyString h.names
  constructor
  · refine ⟨_, (htext h).trans tag.canonicalText_eq, ?_⟩
    rw [read_canonical h]
    exact ⟨rfl, rfl, rfl, hdefaults h, fun written ↦ ⟨rfl, rfl⟩⟩
  · intro other hother hsame
    rw [htext h, htext hother, canonicalText_eq, canonicalText_eq] at hsame
    have hread := congrArg TagSource.read (Delimiters.brackets.wrap_injective hsame)
    rw [read_canonical h, read_canonical hother, TagSource.mk.injEq] at hread
    obtain ⟨-, hkind, hname, harguments⟩ := hread
    refine ⟨hkind, hname, ?_, ?_, ?_⟩
    · rw [name, name, hname]
    · rw [filters, filters, hname]
    · rw [← hdefaults h, ← hdefaults hother, harguments]

/-- A tag with question marks, quotes, ampersands and brackets in its filters and its values. -/
def intricate : Tag :=
  { new .chunk "card:is=`who?`:then=`[[+a? &b=c]]`".toList with
    defaults := ⟨[("title".toList, "a`?&`=b".toList), ("css note".toList, " x? ".toList)],
      by decide⟩ }

/-- The text of this tag, without its brackets. -/
def intricateInner : Text :=
  "$card:is=`who?`:then=`[[+a? &b=c]]`?title=`a``?&``=b`&css note=` x? `".toList

/-- The tag is read from its text, and it keeps its text and its parts when it is done. -/
theorem intricate_identified :
    intricate.Canonical ∧
      intricate.text = Delimiters.brackets.wrap intricateInner ∧
      (TagSource.read intricateInner).rawName = intricate.rawName ∧
      ((TagSource.read intricateInner).rawProperties.map Properties.parse).getD .empty =
        intricate.defaults ∧
      { intricate with processed := true }.Canonical ∧
      { intricate with processed := true }.text = intricate.text ∧
      { intricate with processed := true }.filters = intricate.filters := by
  have hcanonical : intricate.Canonical := by decide
  have hdone : { intricate with processed := true }.Canonical := by decide
  have htext : intricate.text = Delimiters.brackets.wrap intricateInner := by decide
  obtain ⟨⟨inner, hinner, -, -, hname, hproperties, -⟩, hsame⟩ := text_identifies hcanonical
  obtain rfl := Delimiters.brackets.wrap_injective (htext.symm.trans hinner)
  exact ⟨hcanonical, htext, hname, hproperties, hdone, rfl, (hsame _ hdone rfl).2.2.2.1⟩

end Tag

end TagTemplate
