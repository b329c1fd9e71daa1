import Mathlib.Algebra.Group.Nat.Even
import TagTemplate.Proofs.Trimming
import TagTemplate.Proofs.Updating
import TagTemplate.Properties.Definition

/-!
# Property strings one behind the other

A property string that leaves no quotation open can be put in front of another one, with an `&`
between them: what it defines comes first, and what the other one defines comes behind that
(`joined_strings_parse`). Nothing that stands in the one can affect the other, however malformed it
is.

A segment is read from a piece of the string after trimming, and an empty segment defines nothing;
so it does not matter whether empty segments are dropped, and whether a string without an `&` is
taken for a single segment (`Definition.parse_eq_pieces`). What is left to be seen is that the `&`
at the seam cuts, and that behind it splitting starts anew (`Text.pieces_append_delimiter`).
-/

namespace TagTemplate

namespace Text

variable {delimiter : Char}

/-- **Behind a text that leaves no quotation open**, a delimiter cuts, and splitting starts anew. -/
theorem pieces_append_delimiter (hne : delimiter ≠ quoteMark) {quoted : Bool} {s : Text}
    (h : quoted = false ↔ Even (s.count quoteMark)) (t : Text) :
    pieces delimiter quoteMark quoted (s ++ delimiter :: t) =
      pieces delimiter quoteMark quoted s ++ pieces delimiter quoteMark false t := by
  -- What is read goes into the first piece, and there is one.
  have hread (c : Char) (quoted : Bool) (s : Text) (ts : List Text) :
      (pieces delimiter quoteMark quoted s ++ ts).modifyHead (c :: ·) =
        (pieces delimiter quoteMark quoted s).modifyHead (c :: ·) ++ ts := by
    obtain ⟨x, xs, hxs⟩ :=
      List.exists_cons_of_ne_nil (pieces_ne_nil delimiter quoteMark quoted s)
    rw [hxs]
    rfl
  induction s generalizing quoted with
  | nil =>
    obtain rfl : quoted = false := h.2 ⟨0, rfl⟩
    show pieces delimiter quoteMark false (delimiter :: t) = [[]] ++ _
    rw [pieces, if_neg hne, if_pos ⟨rfl, rfl⟩, List.singleton_append]
  | cons c s ih =>
    rw [List.cons_append, pieces, pieces]
    split
    · rename_i hmark
      subst hmark
      have heven : (!quoted) = false ↔ Even (s.count quoteMark) := by
        rw [List.count_cons_self, Nat.even_add_one] at h
        rw [← not_iff_not, ← h]
        cases quoted <;> decide
      rw [ih heven, hread]
    · rename_i hmark
      have hcount : (c :: s).count quoteMark = s.count quoteMark := List.count_cons_of_ne hmark
      rw [hcount] at h
      split
      · rename_i hcut
        rw [ih (iff_of_true rfl (h.1 hcut.2)), List.cons_append]
      · rw [ih h, hread]

section Read

variable {α : Type} {read : Text → Option α} (h : read [] = none)
include h

/-- What is read from the segments of a text is read from its pieces, if nothing is read from an
empty one. -/
theorem filterMap_segments (t : Text) :
    (segments delimiter quoteMark t).filterMap read =
      (pieces delimiter quoteMark false t).filterMap fun piece ↦ read piece.trim := by
  have hempty (x : Text) : (if !x.isEmpty then read x else none) = read x := by
    rcases x with - | - <;> simp [h]
  rw [segments, List.filterMap_filter, List.filterMap_map]
  simp only [hempty]
  rfl

/-- A text without the delimiter is no exception. -/
theorem filterMap_split (t : Text) :
    (split delimiter t).filterMap read = (segments delimiter quoteMark t).filterMap read := by
  rw [split, splitQuoted]
  split
  · rw [if_pos rfl]
  · rename_i hnone
    rw [filterMap_segments h, pieces_of_notMem hnone]
    rfl

end Read

end Text

namespace Definition

theorem ofSegment?_nil : ofSegment? [] = none := by decide

/-- Properties are read from the segments of their source, each by itself. -/
theorem parse_eq_segments (source : Text) :
    parse source = (Text.segments '&' Text.quoteMark source).filterMap ofSegment? :=
  Text.filterMap_split ofSegment?_nil source

/-- The definitions in a property string are read from its pieces. -/
theorem parse_eq_pieces (source : Text) :
    parse source = (Text.pieces '&' Text.quoteMark false source).filterMap fun piece ↦
      ofSegment? piece.trim := by
  rw [parse_eq_segments, Text.filterMap_segments ofSegment?_nil]

/-- Blanks around the source make no difference. -/
theorem parse_trim (source : Text) : parse source.trim = parse source := by
  rw [parse_eq_segments, Text.segments_trim (by decide), ← parse_eq_segments]

/-- Where all quotes before it are closed, a separator parts what is read. -/
theorem parse_append {s : Text} (h : Even (s.count Text.quoteMark)) (t : Text) :
    parse (s ++ '&' :: t) = parse s ++ parse t := by
  rw [parse_eq_pieces, Text.pieces_append_delimiter (by decide) (iff_of_true rfl h),
    List.filterMap_append, ← parse_eq_pieces, ← parse_eq_pieces]

/-- A sealed source is one segment. -/
theorem parse_of_sealed {s : Text} (h : Text.Sealed '&' s) :
    parse s = (ofSegment? s.trim).toList := by
  rw [parse_eq_pieces, h.pieces_eq, List.filterMap_cons]
  rcases ofSegment? s.trim <;> rfl

/-- A sealed part of the source is read by itself, and then the rest. -/
theorem parse_sealed_append {s : Text} (h : Text.Sealed '&' s) (t : Text) :
    parse (s ++ '&' :: t) = (ofSegment? s.trim).toList ++ parse t := by
  rw [parse_eq_pieces, h.pieces_append (by decide), List.filterMap_cons, ← parse_eq_pieces]
  rcases ofSegment? s.trim <;> rfl

end Definition

namespace Properties

/-- **Property strings one behind the other** define what the first one defines and then what the
second one defines. So the properties are those of the first one, merged with those of the second
one: the texts of the second one win, and the names of the first one come first. -/
theorem joined_strings_parse (s t : Text) (h : Even (s.count Text.quoteMark)) :
    Definition.parse (s ++ '&' :: t) = Definition.parse s ++ Definition.parse t ∧
      parse (s ++ '&' :: t) = (parse s).merge (parse t) ∧
      (∀ key, (parse (s ++ '&' :: t)).get? key =
        ((parse t).get? key).or ((parse s).get? key)) ∧
      (parse s).keys <+: (parse (s ++ '&' :: t)).keys := by
  have happend : Definition.parse (s ++ '&' :: t) = Definition.parse s ++ Definition.parse t :=
    Definition.parse_append h t
  have hmerge : parse (s ++ '&' :: t) = (parse s).merge (parse t) := by
    rw [parse, happend, List.map_append, ofList_append]
    rfl
  refine ⟨happend, hmerge, fun key ↦ ?_, ?_⟩
  · rw [hmerge, get?_merge]
  · rw [hmerge]
    exact keys_prefix_extend _ _

/-- A property string with a segment without a value, an empty one, an encoded separator and a value
that describes itself. -/
def ragged : Text := "size=1 &broken& &note=`a&b``c`&amp;kind=Kind;list;x,y;`y`".toList

/-- A property string with one name in common with the other one, a segment with too many parts, and
a quotation that is left open. -/
def dangling : Text := "a=b=c&note=;&size=`2&".toList

/-- All quotes of the first string are closed, so that the second one is read by itself, though it
leaves one open. -/
theorem ragged_dangling_joined : Even (ragged.count Text.quoteMark) ∧
    Definition.parse (ragged ++ '&' :: dangling) =
      Definition.parse ragged ++ Definition.parse dangling ∧
    parse (ragged ++ '&' :: dangling) =
      ⟨[("size".toList, "`2&".toList), ("note".toList, ";".toList), ("kind".toList, "y".toList)],
        by decide⟩ := by
  have heven : Even (ragged.count Text.quoteMark) := by decide
  obtain ⟨hdefinitions, hmerge, -, -⟩ := joined_strings_parse ragged dangling heven
  exact ⟨heven, hdefinitions, hmerge.trans (by decide)⟩

end Properties

end TagTemplate
