import Mathlib.Data.List.Basic
import Mathlib.Tactic.SplitIfs
import TagTemplate.Store.Values

/-!
# Names with a common beginning

The names of a store that begin with a text stand together, in one block that begins where that text
itself would stand: what stands between the text and a name that begins with it begins with it too
(`Text.startsWith_of_between`). So to visit the names from the text onward, up to the first one that
does not begin with it, is to visit all that begin with it (`ValueStore.visited_eq`), and to cut the
block out is to remove them (`Dict.entries_eraseStarting`).

Texts are compared character by character here. Their bytes tell the same: the UTF-8 bytes of a
smaller character are in front of those of a greater one, whatever follows them
(`Text.encode_append_lt`), and so both the order of texts and what they begin with can be read off
the bytes (`Text.bytes_lt_iff`, `Text.bytes_prefix_iff`).
-/

namespace TagTemplate

namespace Text

/-! ### Texts as bytes -/

/-- The UTF-8 bytes of the text. -/
def bytes (t : Text) : List UInt8 := t.flatMap String.utf8EncodeChar

@[simp] theorem bytes_nil : bytes [] = [] := rfl

@[simp] theorem bytes_cons (c : Char) (t : Text) :
    bytes (c :: t) = String.utf8EncodeChar c ++ bytes t := List.flatMap_cons

@[simp] theorem bytes_append (s t : Text) : bytes (s ++ t) = bytes s ++ bytes t :=
  List.flatMap_append

/-- Bytes are ordered as their numbers are. -/
theorem cons_ofNat_lt_cons_ofNat {m n : Nat} (hm : m < 256) (hn : n < 256) (xs ys : List UInt8) :
    UInt8.ofNat m :: xs < UInt8.ofNat n :: ys ↔ m < n ∨ m = n ∧ xs < ys := by
  rw [List.cons_lt_cons_iff, UInt8.lt_iff_toNat_lt, ← UInt8.toNat_inj, UInt8.toNat_ofNat',
    UInt8.toNat_ofNat', Nat.mod_eq_of_lt hm, Nat.mod_eq_of_lt hn]

/-- Numbers are in the order of their quotients and, where these are equal, of their last digits. -/
theorem div_lt_or_mod_le {m n : Nat} (h : m ≤ n) :
    m / 64 < n / 64 ∨ m / 64 = n / 64 ∧ m % 64 ≤ n % 64 := by
  omega

/-- **The bytes of a smaller character come first**, whatever is behind them. -/
theorem encode_append_lt {c d : Char} (h : c < d) (xs ys : List UInt8) :
    String.utf8EncodeChar c ++ xs < String.utf8EncodeChar d ++ ys := by
  have hlt : c.val.toNat < d.val.toNat := h
  have hvalid : d.val.toNat < 0x110000 := by
    have hd := d.valid
    simp only [UInt32.isValidChar, Nat.isValidChar] at hd
    omega
  have htwo (n : Nat) : n / 4096 = n / 64 / 64 := by rw [Nat.div_div_eq_div_mul]
  have hthree (n : Nat) : n / 262144 = n / 64 / 64 / 64 := by
    rw [Nat.div_div_eq_div_mul, Nat.div_div_eq_div_mul]
  unfold String.utf8EncodeChar
  dsimp only
  generalize c.val.toNat = m at hlt ⊢
  generalize d.val.toNat = n at hlt hvalid ⊢
  rw [htwo, htwo, hthree, hthree]
  -- The digits to base 64, from the last one on.
  have hle := Nat.le_of_lt hlt
  have hlast := div_lt_or_mod_le hle
  have hmiddle := div_lt_or_mod_le (Nat.div_le_div_right (c := 64) hle)
  have hfirst := div_lt_or_mod_le
    (Nat.div_le_div_right (c := 64) (Nat.div_le_div_right (c := 64) hle))
  -- One case for each number of bytes that the two characters can have.
  split_ifs <;> try omega
  all_goals
    simp (disch := omega) only [List.cons_append, cons_ofNat_lt_cons_ofNat]
    omega

/-- Texts in order have their bytes in order, by the first character in which they differ. -/
theorem bytes_lt_of_lt {s t : Text} (h : s < t) : bytes s < bytes t := by
  induction s generalizing t with
  | nil =>
    rcases t with - | ⟨d, t⟩
    · exact absurd h (List.lt_irrefl _)
    · obtain ⟨b, rest, hbytes⟩ :=
        List.exists_cons_of_ne_nil (String.utf8EncodeChar_ne_nil (c := d))
      rw [bytes_cons, hbytes]
      exact List.nil_lt_cons _ _
  | cons c s ih =>
    rcases t with - | ⟨d, t⟩
    · exact absurd h (List.not_lt_nil _)
    · rw [bytes_cons, bytes_cons]
      rcases List.cons_lt_cons_iff.1 h with hlt | ⟨rfl, hlt⟩
      · exact encode_append_lt hlt _ _
      · exact List.append_left_lt (ih hlt)

/-- **The order of texts is the order of their bytes.** -/
theorem bytes_lt_iff {s t : Text} : bytes s < bytes t ↔ s < t := by
  refine ⟨fun hbytes ↦ ?_, bytes_lt_of_lt⟩
  by_contra hnot
  rcases List.le_iff_lt_or_eq.1 (List.not_lt.1 hnot) with hlt | rfl
  · exact List.lt_asymm hbytes (bytes_lt_of_lt hlt)
  · exact List.lt_irrefl _ hbytes

/-- **What a text begins with** is told by the bytes. -/
theorem bytes_prefix_iff {s t : Text} : bytes s <+: bytes t ↔ s <+: t := by
  constructor
  · intro hbytes
    induction s generalizing t with
    | nil => exact List.nil_prefix
    | cons c s ih =>
      obtain ⟨rest, hrest⟩ := hbytes
      rw [bytes_cons, List.append_assoc] at hrest
      rcases t with - | ⟨d, t⟩
      · exact absurd (List.append_eq_nil_iff.1 hrest).1 String.utf8EncodeChar_ne_nil
      · rw [bytes_cons] at hrest
        -- Bytes of characters that differ are never equal, whatever is behind them.
        obtain rfl : c = d := Std.Trichotomous.trichotomous c d
          (fun hlt ↦ List.lt_irrefl _ (hrest ▸ encode_append_lt hlt _ _))
          (fun hlt ↦ List.lt_irrefl _ (hrest ▸ encode_append_lt hlt _ _))
        have hs : s <+: t := ih ⟨rest, List.append_cancel_left hrest⟩
        exact List.cons_prefix_cons.2 ⟨rfl, hs⟩
  · rintro ⟨rest, rfl⟩
    rw [bytes_append]
    exact List.prefix_append _ _

/-! ### The block of a beginning -/

/-- A text does not stand in front of its own start. -/
theorem not_lt_of_startsWith {t start : Text} (h : t.startsWith start = true) : ¬ t < start := by
  obtain ⟨rest, rfl⟩ := startsWith_iff.1 h
  exact List.not_lt.2 (List.prefix_append start rest).le

/-- **What stands between a text and a name that begins with it** begins with it too. -/
theorem startsWith_of_between {start s t : Text} (hnot : ¬ s < start) (hlt : s < t)
    (ht : t.startsWith start = true) : s.startsWith start = true := by
  rw [startsWith, List.isPrefixOf_iff_prefix] at ht ⊢
  induction start generalizing s t with
  | nil => exact List.nil_prefix
  | cons c start ih =>
    rcases s with - | ⟨d, s⟩
    · exact absurd (List.nil_lt_cons c start) hnot
    · obtain ⟨rest, rfl⟩ := ht
      rw [List.cons_append, List.cons_lt_cons_iff] at hlt
      rw [List.cons_lt_cons_iff, not_or, not_and] at hnot
      rcases hlt with hdc | ⟨rfl, hrest⟩
      · exact absurd hdc hnot.1
      · exact List.cons_prefix_cons.2
          ⟨rfl, ih (hnot.2 rfl) hrest (List.prefix_append start rest)⟩

/-- **A block.** Among ascending names from the text onward, those that begin with it come first. -/
theorem pairwise_startsWith {α : Type} (name : α → Text) (start : Text) {l : List α}
    (hsorted : l.Pairwise fun a b ↦ name a < name b) (honward : ∀ a ∈ l, ¬ name a < start) :
    l.Pairwise fun a b ↦ (name b).startsWith start = true → (name a).startsWith start = true :=
  hsorted.imp_of_mem fun ha _ hlt hstarts ↦ startsWith_of_between (honward _ ha) hlt hstarts

/-- A text begins with another exactly when its bytes do. -/
theorem startsWith_iff_bytes {t start : Text} :
    t.startsWith start = true ↔ bytes start <+: bytes t := by
  rw [startsWith, List.isPrefixOf_iff_prefix, bytes_prefix_iff]

end Text

/-! ### What an ordered list begins with -/

section FrontOfList

variable {α : Type} {p : α → Bool} {l : List α}

/-- Where a property is one of a front part, the front part is all that has it. -/
theorem takeWhile_eq_filter (h : l.Pairwise fun a b ↦ p b = true → p a = true) :
    l.takeWhile p = l.filter p := by
  induction l with
  | nil => rfl
  | cons a l ih =>
    obtain ⟨hfirst, hrest⟩ := List.pairwise_cons.1 h
    by_cases ha : p a = true
    · rw [List.takeWhile_cons_of_pos ha, List.filter_cons_of_pos ha, ih hrest]
    · rw [List.takeWhile_cons_of_neg ha, List.filter_cons_of_neg ha]
      exact (List.filter_eq_nil_iff.2 fun b hb hpb ↦ ha (hfirst b hb hpb)).symm

/-- Where a property is one of a front part, the rest is all that does not have it. -/
theorem dropWhile_eq_filter (h : l.Pairwise fun a b ↦ p b = true → p a = true) :
    l.dropWhile p = l.filter (!p ·) := by
  induction l with
  | nil => rfl
  | cons a l ih =>
    obtain ⟨hfirst, hrest⟩ := List.pairwise_cons.1 h
    by_cases ha : p a = true
    · rw [List.dropWhile_cons_of_pos ha, List.filter_cons_of_neg (by simp [ha]), ih hrest]
    · rw [List.dropWhile_cons_of_neg ha]
      refine (List.filter_eq_self.2 fun b hb ↦ ?_).symm
      rcases List.mem_cons.1 hb with rfl | hb
      · simpa using ha
      · simpa using fun hpb ↦ ha (hfirst b hb hpb)

end FrontOfList

/-! ### Cutting the block out of a dictionary -/

namespace Dict

variable {α : Type}

theorem keys_pairwise (d : Dict α) : d.keys.Pairwise (· < ·) := List.pairwise_map.2 d.sorted

/-- **Cutting the block out** removes the entries whose keys begin with the text, and no others. -/
theorem entries_eraseStarting (d : Dict α) (start : Text) :
    (d.eraseStarting start).entries = d.entries.filter (!·.1.startsWith start) := by
  have hfront : d.entries.Pairwise fun a b ↦
      decide (b.1 < start) = true → decide (a.1 < start) = true :=
    d.sorted.imp fun hab hb ↦ decide_eq_true (List.lt_trans hab (of_decide_eq_true hb))
  have hbelow := takeWhile_eq_filter hfront
  have honward := dropWhile_eq_filter hfront
  have hblock := Text.pairwise_startsWith Prod.fst start
    (d.sorted.filter fun entry ↦ !decide (entry.1 < start))
    fun entry hentry ↦ by simpa using (List.mem_filter.1 hentry).2
  show d.entries.takeWhile _ ++ (d.entries.dropWhile _).dropWhile _ = _
  rw [honward, dropWhile_eq_filter hblock]
  -- In front of the block no key begins with the text.
  have hkept : d.entries.takeWhile (fun entry ↦ decide (entry.1 < start)) =
      (d.entries.takeWhile fun entry ↦ decide (entry.1 < start)).filter
        (!·.1.startsWith start) := by
    refine (List.filter_eq_self.2 fun entry hentry ↦ ?_).symm
    rw [hbelow] at hentry
    have hlt : entry.1 < start := by simpa using (List.mem_filter.1 hentry).2
    have hnot : ¬ entry.1.startsWith start = true := fun hstarts ↦
      Text.not_lt_of_startsWith hstarts hlt
    simpa using hnot
  rw [hkept, ← honward, ← List.filter_append, List.takeWhile_append_dropWhile]

end Dict

/-! ### Removing the names that are visited -/

namespace ValueStore

/-- Without some keys, the entries are the others, as they were. -/
theorem entries_eraseAll (s : ValueStore) (keys : List Text) :
    (s.eraseAll keys).entries = s.entries.filter (·.1 ∉ keys) := by
  induction keys generalizing s with
  | nil => exact (List.filter_eq_self.2 fun _ _ ↦ by simp).symm
  | cons key keys ih =>
    show (eraseAll (s.erase key) keys).entries = _
    rw [ih]
    show (s.entries.filter _).filter _ = _
    rw [List.filter_filter]
    refine List.filter_congr fun entry _ ↦ ?_
    simp [Bool.and_comm]

/-- **The names that are visited** are all those that begin with the text. -/
theorem visited_eq (s : ValueStore) (start : Text) :
    (s.keysFrom start).takeWhile (·.startsWith start) = s.keys.filter (·.startsWith start) := by
  have hblock := Text.pairwise_startsWith (fun key ↦ key) start
    (s.keys_pairwise.filter (¬ · < start))
    fun key hkey ↦ of_decide_eq_true (List.mem_filter.1 hkey).2
  rw [keysFrom, takeWhile_eq_filter hblock, List.filter_filter]
  refine List.filter_congr fun key _ ↦ ?_
  by_cases hstarts : key.startsWith start = true
  · simp [hstarts, Text.not_lt_of_startsWith hstarts]
  · simp [hstarts]

/-- What is left has no key with the start, and lacks nothing else. -/
theorem entries_eraseStarting_fst (s : ValueStore) (start : Text) :
    (s.eraseStarting start).1.entries = s.entries.filter (!·.1.startsWith start) := by
  show (s.eraseAll ((s.keysFrom start).takeWhile (·.startsWith start))).entries = _
  rw [visited_eq, entries_eraseAll]
  refine List.filter_congr fun entry hentry ↦ ?_
  have hkey : entry.1 ∈ s.keys := List.mem_map_of_mem hentry
  simp [List.mem_filter, hkey]

/-- **The walk cuts the block out.** -/
theorem eraseStarting_fst (s : ValueStore) (start : Text) :
    (s.eraseStarting start).1 = Dict.eraseStarting s start := by
  refine Dict.ext fun key ↦ ?_
  rw [Dict.get?, Dict.get?, entries_eraseStarting_fst, Dict.entries_eraseStarting]

/-- The number that is answered is the number of names that begin with the text. -/
theorem eraseStarting_snd (s : ValueStore) (start : Text) :
    (s.eraseStarting start).2 = (s.keys.filter (·.startsWith start)).length :=
  congrArg List.length (s.visited_eq start)

/-- What is left and what is removed make up the store. -/
theorem size_eraseStarting (s : ValueStore) (start : Text) :
    (s.eraseStarting start).1.size + (s.eraseStarting start).2 = s.size := by
  have hsplit := List.length_eq_length_filter_add (l := s.entries) (·.1.startsWith start)
  have hkeys : (s.keys.filter (·.startsWith start)).length =
      (s.entries.filter (·.1.startsWith start)).length := by
    rw [Dict.keys, List.filter_map, List.length_map]
    rfl
  rw [eraseStarting_snd, hkeys, Dict.size, Dict.size, entries_eraseStarting_fst, hsplit,
    Nat.add_comm]

/-- **Removal by a beginning** removes exactly the names that begin with the text, in bytes as in
characters, keeps the others with what is stored under them, and counts those removed. The names
that are visited are the ones from the text onward, and the names ascend in the order of their
bytes. -/
theorem removes_exactly_starting (s : ValueStore) (start : Text) :
    s.entries.Pairwise (fun a b ↦ Text.bytes a.1 < Text.bytes b.1) ∧
      (∀ entry, entry ∈ (s.eraseStarting start).1.entries ↔
        entry ∈ s.entries ∧ ¬ Text.bytes start <+: Text.bytes entry.1) ∧
      (∀ key, (s.eraseStarting start).1.get? key =
        if Text.bytes start <+: Text.bytes key then none else s.get? key) ∧
      (s.eraseStarting start).2 =
        (s.keys.filter (Text.bytes start <+: Text.bytes ·)).length ∧
      (s.eraseStarting start).1.size + (s.eraseStarting start).2 = s.size := by
  have hmem (entry : Text × Json) : entry ∈ (s.eraseStarting start).1.entries ↔
      entry ∈ s.entries ∧ ¬ Text.bytes start <+: Text.bytes entry.1 := by
    rw [entries_eraseStarting_fst, List.mem_filter, ← Text.startsWith_iff_bytes,
      Bool.not_eq_true', Bool.not_eq_true]
  refine ⟨s.sorted.imp Text.bytes_lt_iff.2, hmem, fun key ↦ ?_, ?_, s.size_eraseStarting start⟩
  · refine Option.ext fun value ↦ ?_
    rw [Dict.get?_eq_some_iff, hmem]
    split_ifs with hstarts
    · exact iff_of_false (fun h ↦ h.2 hstarts) nofun
    · rw [Dict.get?_eq_some_iff, and_iff_left hstarts]
  · rw [eraseStarting_snd]
    refine congrArg List.length (List.filter_congr fun key _ ↦ ?_)
    rw [Bool.eq_iff_iff, Text.startsWith_iff_bytes, decide_eq_true_iff]

end ValueStore

end TagTemplate
