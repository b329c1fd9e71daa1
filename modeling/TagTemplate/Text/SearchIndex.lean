import TagTemplate.Text.Replacement

/-!
# Searching for many texts at once

The search texts of a replacement can begin at few places of a text only. A `SearchIndex` groups the
rules of a replacement by the first byte of their search texts. A text is then searched in bytes:
what stands in front of the next byte that begins a search text is copied in one go, and there the
rules of that byte are tried (`Bucket.longest?`), one size after the other and the largest first.

Offsets and sizes are counted in bytes here, so an offset can fall inside of a character. The text
is not cut at such an offset (`Text.cutAt?`), and a search that asked for it would have no answer.
The index carries what the search rests on: its bytes begin characters, and none of them occurs
inside of one; a bucket has the size of each of its search texts, and none of these is empty, so
that every round of the search consumes something.
-/

namespace TagTemplate.Text

/-! ### Bytes -/

/-- The first of the UTF-8 bytes of the character. -/
def firstByte (c : Char) : UInt8 := (String.utf8EncodeChar c).head String.utf8EncodeChar_ne_nil

theorem isUTF8FirstByte_firstByte (c : Char) : (firstByte c).IsUTF8FirstByte := by
  rw [firstByte, List.head_eq_getElem, UInt8.isUTF8FirstByte_getElem_utf8EncodeChar]

/-- The offset of the first of the UTF-8 bytes of the text that is one of those looked for. -/
def findByte? (wanted : UInt8 → Bool) : Text → Option Nat
  | [] => none
  | c :: t =>
    match (String.utf8EncodeChar c).findIdx? wanted with
    | some offset => some offset
    | none => (findByte? wanted t).map (c.utf8Size + ·)

/-! ### Buckets -/

/-- Rules of which the search texts begin with the same byte. -/
structure Bucket where
  /-- The sizes of the search texts, the largest first. -/
  sizes : List Nat
  /-- One rule for each search text. -/
  rules : List Rule
  descending : sizes.Pairwise (· ≥ ·)
  positive : ∀ size ∈ sizes, 0 < size
  sized : ∀ rule ∈ rules, rule.1.size ∈ sizes

namespace Bucket

/-- The bucket without rules. -/
def empty : Bucket := ⟨[], [], .nil, nofun, nofun⟩

/-- Adds a size to sizes in descending order, unless it is there. -/
def addSize (size : Nat) (sizes : List Nat) : List Nat :=
  if size ∈ sizes then sizes else (size :: sizes).mergeSort (· ≥ ·)

theorem mem_addSize {size other : Nat} {sizes : List Nat} :
    other ∈ addSize size sizes ↔ other = size ∨ other ∈ sizes := by
  rw [addSize]
  split
  · rename_i hmem
    exact ⟨.inr, fun h ↦ h.elim (fun hsame ↦ hsame ▸ hmem) id⟩
  · rw [List.mem_mergeSort, List.mem_cons]

theorem descending_addSize {size : Nat} {sizes : List Nat} (h : sizes.Pairwise (· ≥ ·)) :
    (addSize size sizes).Pairwise (· ≥ ·) := by
  rw [addSize]
  split
  · exact h
  · have hsorted : ((size :: sizes).mergeSort (· ≥ ·)).Pairwise fun a b ↦ decide (a ≥ b) = true :=
      List.pairwise_mergeSort
        (fun a b c hab hbc ↦ by simp only [decide_eq_true_eq] at *; omega)
        (fun a b ↦ by simp only [Bool.or_eq_true, decide_eq_true_eq]; omega) _
    exact hsorted.imp of_decide_eq_true

/-- Adds a rule with the given search text, unless there is one. -/
def insert (b : Bucket) (search replacement : Text) (h : search ≠ []) : Bucket where
  sizes := addSize search.size b.sizes
  rules :=
    if (b.rules.lookup search).isSome then b.rules else b.rules ++ [(search, replacement)]
  descending := descending_addSize b.descending
  positive size hmem := (mem_addSize.1 hmem).elim (fun hsize ↦ hsize ▸ size_pos h) (b.positive size)
  sized rule hmem := by
    rw [mem_addSize]
    split at hmem
    · exact .inr (b.sized rule hmem)
    · rcases List.mem_append.1 hmem with hmem | hmem
      · exact .inr (b.sized rule hmem)
      · rw [List.mem_singleton.1 hmem]
        exact .inl rfl

/-- The replacement of the search text of the given size that begins the text, with that size. -/
def hit? (b : Bucket) (t : Text) (size : Nat) : Option (Nat × Text) :=
  (t.cutAt? size).bind fun cut ↦ (b.rules.lookup cut.1).map fun replacement ↦ (size, replacement)

theorem hit?_eq_some_iff {b : Bucket} {t replacement : Text} {size size' : Nat} :
    b.hit? t size = some (size', replacement) ↔ size' = size ∧ ∃ search : Text,
      search <+: t ∧ search.size = size ∧ b.rules.lookup search = some replacement := by
  rw [hit?, Option.bind_eq_some_iff]
  constructor
  · rintro ⟨⟨search, rest⟩, hcut, hhit⟩
    obtain ⟨rfl, hsize⟩ := cutAt?_eq_some_iff.1 hcut
    obtain ⟨found, hlookup, hsame⟩ := Option.map_eq_some_iff.1 hhit
    obtain ⟨rfl, rfl⟩ := Prod.mk.inj hsame
    exact ⟨rfl, search, List.prefix_append search rest, hsize, hlookup⟩
  · rintro ⟨rfl, search, ⟨rest, rfl⟩, hsize, hlookup⟩
    exact ⟨(search, rest), cutAt?_eq_some_iff.2 ⟨rfl, hsize⟩, by rw [hlookup, Option.map_some]⟩

/-- The size and the replacement of the longest search text that begins the text. -/
def longest? (b : Bucket) (t : Text) : Option (Nat × Text) := b.sizes.findSome? (b.hit? t)

theorem positive_of_longest? {b : Bucket} {t replacement : Text} {size : Nat}
    (h : b.longest? t = some (size, replacement)) : 0 < size := by
  obtain ⟨before, tried, after, hsizes, hhit, -⟩ := List.findSome?_eq_some_iff.1 h
  rw [(hit?_eq_some_iff.1 hhit).1]
  exact b.positive tried (hsizes ▸ List.mem_append_right _ List.mem_cons_self)

end Bucket

/-! ### The index -/

/-- Buckets of rules by the first byte of their search texts. -/
structure SearchIndex where
  buckets : List (UInt8 × Bucket)
  /-- No byte of the index occurs inside of a character. -/
  begins : ∀ entry ∈ buckets, entry.1.IsUTF8FirstByte

namespace SearchIndex

/-- Changes the bucket of a byte, which is empty if there is none. -/
def modify (byte : UInt8) (change : Bucket → Bucket) :
    List (UInt8 × Bucket) → List (UInt8 × Bucket)
  | [] => [(byte, change .empty)]
  | entry :: buckets =>
    if entry.1 = byte then (byte, change entry.2) :: buckets
    else entry :: modify byte change buckets

theorem begins_modify {byte : UInt8} (h : byte.IsUTF8FirstByte) (change : Bucket → Bucket)
    {buckets : List (UInt8 × Bucket)} (hall : ∀ entry ∈ buckets, entry.1.IsUTF8FirstByte) :
    ∀ entry ∈ modify byte change buckets, entry.1.IsUTF8FirstByte := by
  induction buckets with
  | nil => exact List.forall_mem_singleton.2 h
  | cons entry buckets ih =>
    rw [List.forall_mem_cons] at hall
    rw [modify]
    split
    · exact List.forall_mem_cons.2 ⟨h, hall.2⟩
    · exact List.forall_mem_cons.2 ⟨hall.1, ih hall.2⟩

/-- The index without rules. -/
def empty : SearchIndex := ⟨[], nofun⟩

/-- Adds a rule to the bucket of the first byte of its search text. An empty search text has no
first byte and is passed over. -/
def insert (index : SearchIndex) : Rule → SearchIndex
  | ([], _) => index
  | (c :: search, replacement) =>
    ⟨modify (firstByte c) (·.insert (c :: search) replacement (List.cons_ne_nil c search))
      index.buckets, begins_modify (isUTF8FirstByte_firstByte c) _ index.begins⟩

/-- The index of the rules. -/
def ofRules (rules : List Rule) : SearchIndex := rules.foldl insert empty

/-- The bucket of a byte. -/
def bucket? (index : SearchIndex) (byte : UInt8) : Option Bucket := index.buckets.lookup byte

/-- The offset of the first byte of the text that begins a search text. -/
def skip? (index : SearchIndex) (t : Text) : Option Nat :=
  t.findByte? fun byte ↦ (index.bucket? byte).isSome

/-- One round of the search: what it puts out and which text it leaves. Without a byte that begins a
search text, all is copied. If there is one, what stands in front of it is copied, and behind that
either a search text is replaced or one more character is copied. -/
def round? (index : SearchIndex) (t : Text) : Option (Text × Text) :=
  match index.skip? t with
  | none => some (t, [])
  | some skip => do
    let (before, behind) ← t.cutAt? skip
    let next ← behind.head?
    match (index.bucket? (firstByte next)).bind (·.longest? behind) with
    | some (size, replacement) =>
      let (_, rest) ← behind.cutAt? size
      return (before ++ replacement, rest)
    | none =>
      let (copied, rest) ← behind.cutAt? next.utf8Size
      return (before ++ copied, rest)

/-- A round consumes something. -/
theorem length_lt_of_round? {index : SearchIndex} {t out rest : Text}
    (h : index.round? t = some (out, rest)) (ht : t ≠ []) : rest.length < t.length := by
  rw [round?] at h
  split at h
  · obtain ⟨-, rfl⟩ := Prod.mk.inj (Option.some.inj h)
    exact List.length_pos_iff.2 ht
  · obtain ⟨⟨before, behind⟩, hcut, h⟩ := Option.bind_eq_some_iff.1 h
    obtain ⟨next, -, h⟩ := Option.bind_eq_some_iff.1 h
    have hbehind : behind.length ≤ t.length := by
      obtain ⟨rfl, -⟩ := cutAt?_eq_some_iff.1 hcut
      rw [List.length_append]
      exact Nat.le_add_left _ _
    dsimp only at h
    split at h
    · rename_i size replacement hmatch
      obtain ⟨b, -, hlongest⟩ := Option.bind_eq_some_iff.1 hmatch
      obtain ⟨⟨found, rest'⟩, hcut', h⟩ := Option.bind_eq_some_iff.1 h
      obtain ⟨-, rfl⟩ := Prod.mk.inj (Option.some.inj h)
      exact Nat.lt_of_lt_of_le
        (length_lt_of_cutAt? hcut' (Bucket.positive_of_longest? hlongest)) hbehind
    · obtain ⟨⟨copied, rest'⟩, hcut', h⟩ := Option.bind_eq_some_iff.1 h
      obtain ⟨-, rfl⟩ := Prod.mk.inj (Option.some.inj h)
      exact Nat.lt_of_lt_of_le (length_lt_of_cutAt? hcut' next.utf8Size_pos) hbehind

/-- The text with every match replaced, unless the search asks for a cut inside of a character. -/
def replace? (index : SearchIndex) (t : Text) : Option Text :=
  if _ht : t = [] then some []
  else match _hround : index.round? t with
    | none => none
    | some (out, rest) => (replace? index rest).map (out ++ ·)
termination_by t.length
decreasing_by exact length_lt_of_round? _hround _ht

end SearchIndex

end TagTemplate.Text
