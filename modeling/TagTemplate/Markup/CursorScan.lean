import TagTemplate.Markup.Basic
import TagTemplate.Text.SegmentPass

/-!
# The scan with cursors

The outermost tags of a content can be found by searching for the delimiters instead of walking over
all characters. Such a scan keeps offsets in bytes: of the opening of a tag, of the closing that
ends the tag as far as it is known, and of the next opening that has not been counted yet. The
openings in front of the closing are counted (`Delimiters.countOpenings`), and as long as one of
them is not closed the closing moves on to the next one behind it (`Delimiters.balance`). The search
ends early, behind the last closing of the content.

The openings and the closings are searched for apart from each other, so that with delimiters that
share characters an opening can reach past the closing that ends its tag. No order of the offsets is
taken for granted: a tag is sliced out of the content, and a scan that asked for a slice that begins
behind its end, or in the middle of a character, would have no answer.

Every search begins behind the occurrence that was found last. A delimiter that is empty would be
found at the same place again, so these are not searched for.
-/

namespace TagTemplate

namespace Text

/-- The offset of the first occurrence of the mark from an offset on. Nothing is found from an
offset that lies beyond the end or inside of a character. -/
def findFrom? (mark : Text) (start : Nat) (t : Text) : Option Nat :=
  (t.cutAt? start).bind fun cut ↦ (cut? mark cut.2).map fun found ↦ start + found.1.size

/-- The offset of the last occurrence of the mark. -/
def findLast? (mark : Text) : Text → Option Nat
  | [] => if mark.isEmpty then some 0 else none
  | c :: t =>
    match findLast? mark t with
    | some offset => some (c.utf8Size + offset)
    | none => if startsWith (c :: t) mark then some 0 else none

/-- An occurrence lies behind the offset that it is searched from, and within the text. -/
theorem bounds_of_findFrom? {mark t : Text} {start offset : Nat}
    (h : findFrom? mark start t = some offset) :
    start ≤ offset ∧ offset + mark.size ≤ t.size := by
  obtain ⟨⟨front, rest⟩, hcutAt, hfound⟩ := Option.bind_eq_some_iff.1 h
  obtain ⟨⟨before, behind⟩, hcut, rfl⟩ := Option.map_eq_some_iff.1 hfound
  obtain ⟨rfl, rfl⟩ := cutAt?_eq_some_iff.1 hcutAt
  have hsize := congrArg size (eq_append_of_cut? hcut)
  simp only [size_append] at hsize ⊢
  omega

end Text

/-- A tag that was found in a content. -/
structure FoundTag where
  /-- The tag as it stands in the content. -/
  outer : Text
  inner : Text
  /-- The offset at which the tag begins. -/
  start : Nat
deriving DecidableEq, Repr

namespace FoundTag

/-- The offset behind the tag. -/
def stop (tag : FoundTag) : Nat := tag.start + tag.outer.size

/-- Where the tag stands. -/
def span (tag : FoundTag) : Span := ⟨tag.inner, tag.start, tag.stop⟩

end FoundTag

namespace Delimiters

theorem size_opening_pos {d : Delimiters} (hd : d.usable = true) : 0 < d.opening.size := by
  simp only [usable, Bool.and_eq_true, Bool.not_eq_true', List.isEmpty_eq_false_iff] at hd
  exact Text.size_pos hd.1

theorem size_closing_pos {d : Delimiters} (hd : d.usable = true) : 0 < d.closing.size := by
  simp only [usable, Bool.and_eq_true, Bool.not_eq_true', List.isEmpty_eq_false_iff] at hd
  exact Text.size_pos hd.2

/-- Counts the openings in front of a closing, from the next one on. Answers how many openings are
to be closed then, and the next opening that was not counted. -/
def countOpenings (d : Delimiters) (hd : d.usable = true) (content : Text) (closing depth : Nat)
    (next : Option Nat) : Nat × Option Nat :=
  match next with
  | none => (depth, none)
  | some opening =>
    if opening < closing then
      countOpenings d hd content closing (depth + 1)
        (Text.findFrom? d.opening (opening + d.opening.size) content)
    else (depth, some opening)
termination_by next.elim 0 (closing - ·)
decreasing_by
  rename_i hlt
  have hpos := size_opening_pos hd
  cases hnext : Text.findFrom? d.opening (opening + d.opening.size) content with
  | none =>
    simp only [Option.elim]
    omega
  | some later =>
    have hle := (Text.bounds_of_findFrom? hnext).1
    simp only [Option.elim]
    omega

/-- Moves the closing on until all openings in front of it are closed, or to the last closing there
is. Answers that closing, and the next opening that was not counted. -/
def balance (d : Delimiters) (hd : d.usable = true) (content : Text) (closing depth : Nat)
    (next : Option Nat) : Nat × Option Nat :=
  match depth with
  | 0 => (closing, next)
  | depth + 1 =>
    match _hlater : Text.findFrom? d.closing (closing + d.closing.size) content with
    | none => (closing, next)
    | some later =>
      let (depth, next) := d.countOpenings hd content later depth next
      balance d hd content later depth next
termination_by content.size - closing
decreasing_by
  have hpos := size_closing_pos hd
  have hbounds := Text.bounds_of_findFrom? _hlater
  omega

/-- The closing moves forwards only. -/
theorem le_balance {d : Delimiters} (hd : d.usable = true) (content : Text) (closing depth : Nat)
    (next : Option Nat) : closing ≤ (d.balance hd content closing depth next).1 := by
  fun_induction balance d hd content closing depth next with
  | case1 => exact Nat.le_refl _
  | case2 => exact Nat.le_refl _
  | case3 closing next depth later hlater depth' next' _ ih =>
    exact Nat.le_trans (Nat.le_trans (Nat.le_add_right _ _) (Text.bounds_of_findFrom? hlater).1) ih

/-- The tags from the opening at `start` on, in front of `stop`. -/
def locateFrom? (d : Delimiters) (hd : d.usable = true) (content : Text) (stop start : Nat) :
    Option (List FoundTag) :=
  if _hstart : start < stop then
    let inside := start + d.opening.size
    match _hclosing : Text.findFrom? d.closing inside content with
    | none => some []
    | some closing => do
      let counted :=
        d.countOpenings hd content closing 0 (Text.findFrom? d.opening inside content)
      let ended := d.balance hd content closing counted.1 counted.2
      let behind := ended.1 + d.closing.size
      let outer ← content.slice? start behind
      let inner ← content.slice? inside ended.1
      match _hnext :
          (ended.2.filter (behind ≤ ·)).or (Text.findFrom? d.opening behind content) with
      | none => return [⟨outer, inner, start⟩]
      | some start' => return ⟨outer, inner, start⟩ :: (← locateFrom? d hd content stop start')
  else some []
termination_by stop - start
decreasing_by
  have hpos := size_closing_pos hd
  have hclosing := (Text.bounds_of_findFrom? _hclosing).1
  have hbalance := d.le_balance hd content closing counted.1 counted.2
  have hnext : behind ≤ start' := by
    rcases Option.or_eq_some_iff.1 _hnext with h | ⟨-, h⟩
    · simpa using (Option.filter_eq_some_iff.1 h).2
    · exact (Text.bounds_of_findFrom? h).1
  simp only [inside, behind, ended] at *
  omega

/-- The outermost tags of the content, found with cursors. -/
def locate? (d : Delimiters) (content : Text) : Option (List FoundTag) :=
  if hd : d.usable = true then
    match Text.findFrom? d.opening 0 content, Text.findLast? d.closing content with
    | some start, some last => d.locateFrom? hd content (last + d.closing.size) start
    | _, _ => some []
  else some []

end Delimiters

end TagTemplate
