import TagTemplate.Markup.CursorScan
import TagTemplate.Proofs.TokenScan

/-!
# The cursors find what the walk finds

The walk of the scan reads a content character by character and waits for the ends of the delimiters
it has read; the cursors jump from one delimiter to the next. They come to the same tags, whatever
the delimiters are, also where an opening and a closing share characters.

What carries the proof is where the next opening is searched from. The walk still waits for some
characters of an opening, and the cursors search behind these characters
(`Delimiters.countOpenings_eq`). This holds at every closing at which the walk stops to decide
whether the tag ends there (`Delimiters.balance_eq`), and at the end of the tag it says how far an
opening that was read reaches past that end, which is the overhang of the tag. All offsets are sizes
of what stands in front of some place of the content. So no slice begins or ends inside of a
character, and the scan with cursors has an answer for every content and all delimiters
(`Delimiters.locate?_eq`).
-/

namespace TagTemplate

/-! ### Searching from an offset -/

namespace Text

variable {mark before rest t : Text} {c : Char}

/-- To search from an offset is to cut what stands behind it. -/
theorem findFrom?_append (mark before rest : Text) :
    findFrom? mark before.size (before ++ rest) =
      (cut? mark rest).map fun found ↦ before.size + found.1.size := by
  have hcutAt : cutAt? before.size (before ++ rest) = some (before, rest) :=
    cutAt?_eq_some_iff.2 ⟨rfl, rfl⟩
  rw [findFrom?, hcutAt]
  rfl

/-- A mark that stands at the offset is found there. -/
theorem findFrom?_of_startsWith (hne : mark ≠ []) (h : startsWith rest mark = true) :
    findFrom? mark before.size (before ++ rest) = some before.size := by
  obtain ⟨c, rest, rfl⟩ := List.exists_cons_of_ne_nil fun hnil : rest = [] ↦
    hne (List.prefix_nil.1 (hnil ▸ List.isPrefixOf_iff_prefix.1 h))
  rw [findFrom?_append, cut?, if_pos h]
  rfl

/-- The mark that begins a text is its first characters. -/
theorem cons_take_of_startsWith (hne : mark ≠ []) (h : startsWith (c :: t) mark = true) :
    c :: t.take (mark.length - 1) = mark := by
  obtain ⟨m, mark, rfl⟩ := List.exists_cons_of_ne_nil hne
  obtain ⟨behind, hbehind⟩ := startsWith_iff.1 h
  obtain ⟨rfl, rfl⟩ := List.cons.inj hbehind
  exact congrArg (c :: ·) List.take_left

/-- Where the mark does not begin, it may as well be searched from one character on. -/
theorem findFrom?_cons (h : ¬startsWith (c :: rest) mark = true) :
    findFrom? mark before.size (before ++ c :: rest) =
      findFrom? mark (before ++ [c]).size (before ++ c :: rest) := by
  have hbehind : findFrom? mark (before ++ [c]).size (before ++ c :: rest) =
      (cut? mark rest).map fun found ↦ (before ++ [c]).size + found.1.size := by
    rw [← findFrom?_append, List.append_assoc, List.singleton_append]
  rw [hbehind, findFrom?_append, cut?, if_neg h, Option.map_map]
  refine congrArg (Option.map · _) (funext fun found ↦ ?_)
  simp only [Function.comp_def, size_append, size_cons, size_nil]
  omega

/-- What is found from some place on, behind a later place, is found from that later place. -/
theorem findFrom?_of_le {offset : ℕ} (hne : mark ≠ []) {skipped : Text}
    (h : findFrom? mark before.size (before ++ (skipped ++ rest)) = some offset)
    (hle : (before ++ skipped).size ≤ offset) :
    findFrom? mark (before ++ skipped).size (before ++ (skipped ++ rest)) = some offset := by
  induction skipped generalizing before with
  | nil => rwa [List.append_nil]
  | cons c skipped ih =>
    have hskip : before ++ c :: skipped = before ++ [c] ++ skipped := List.append_cons ..
    have hcontent : before ++ (c :: skipped ++ rest) = before ++ [c] ++ (skipped ++ rest) :=
      List.append_cons ..
    have hnot : ¬startsWith (c :: (skipped ++ rest)) mark = true := by
      intro hstart
      rw [List.cons_append, findFrom?_of_startsWith hne hstart] at h
      have hpos := c.utf8Size_pos
      simp only [Option.some.injEq, size_append, size_cons] at h hle
      omega
    rw [List.cons_append, findFrom?_cons hnot, ← List.cons_append, hcontent] at h
    rw [hskip] at hle ⊢
    rw [hcontent]
    exact ih h hle

/-- A search from a later place finds what one from an earlier place finds behind it. -/
theorem filter_or_findFrom? (hne : mark ≠ []) (before skipped rest : Text) :
    ((findFrom? mark before.size (before ++ (skipped ++ rest))).filter
        ((before ++ skipped).size ≤ ·)).or
      (findFrom? mark (before ++ skipped).size (before ++ (skipped ++ rest))) =
    findFrom? mark (before ++ skipped).size (before ++ (skipped ++ rest)) := by
  cases hfound : findFrom? mark before.size (before ++ (skipped ++ rest)) with
  | none => rfl
  | some offset =>
    by_cases hle : (before ++ skipped).size ≤ offset
    · rw [Option.filter_some, if_pos (decide_eq_true hle), findFrom?_of_le hne hfound hle]
      rfl
    · rw [Option.filter_some, if_neg (by simpa using hle), Option.none_or]

/-- A mark that is not found from the end is nowhere in the text. -/
theorem not_infix_of_findLast? (h : findLast? mark t = none) : ¬mark <:+: t := by
  induction t with
  | nil =>
    rw [findLast?] at h
    split at h
    · cases h
    · rename_i hne
      simpa using hne
  | cons c t ih =>
    rw [findLast?] at h
    split at h
    · cases h
    · rename_i hlater
      split at h
      · cases h
      · rename_i hstart
        rw [List.infix_cons_iff]
        rintro (hbegins | hholds)
        · exact hstart (List.isPrefixOf_iff_prefix.2 hbegins)
        · exact ih hlater hholds

/-- No occurrence of the mark begins behind the last one that is found. -/
theorem size_le_of_findLast? {last : ℕ} (h : findLast? mark t = some last)
    (ht : t = before ++ (mark ++ rest)) : before.size ≤ last := by
  induction t generalizing before last with
  | nil =>
    rw [(List.append_eq_nil_iff.1 ht.symm).1]
    exact Nat.zero_le _
  | cons c t ih =>
    rcases before with - | ⟨a, before⟩
    · exact Nat.zero_le _
    · obtain ⟨rfl, hbehind⟩ := List.cons.inj ht
      rw [findLast?] at h
      split at h
      · rename_i offset hlater
        obtain rfl := Option.some.inj h
        have hle := ih hlater hbehind
        rw [size_cons]
        omega
      · rename_i hnone
        have hbehind : t = before ++ mark ++ rest := by
          rw [List.append_assoc]
          exact hbehind
        exact absurd ⟨before, rest, hbehind.symm⟩ (not_infix_of_findLast? hnone)

end Text

namespace Delimiters

variable {d : Delimiters} {content before w rest : Text}

/-! ### From one closing to the next -/

/-- The count of openings still to be closed and the characters until the next opening can be read,
after looking for an opening at each place of `w`, which stands in front of `rest`. -/
def seekAll (d : Delimiters) (depth wait : ℕ) : (w rest : Text) → ℕ × ℕ
  | [], _ => (depth, wait)
  | c :: w, rest =>
    let sought := d.seek depth wait (c :: (w ++ rest))
    seekAll d sought.1 (sought.2 - 1) w rest

/-- The walk goes through what stands in front of the next closing that it can read. -/
theorem close?_append (d : Delimiters) (depth openWait : ℕ) {closeWait : ℕ} {w rest : Text}
    (h : ∀ i < w.length, closeWait ≤ i → ¬d.closing <+: (w ++ rest).drop i) :
    d.close? depth openWait closeWait (w ++ rest) =
      let sought := d.seekAll depth openWait w rest
      (d.close? sought.1 sought.2 (closeWait - w.length) rest).map fun later ↦
        { later with inner := w ++ later.inner } := by
  induction w generalizing depth openWait closeWait with
  | nil => simp [seekAll]
  | cons c w ih =>
    have hnot : ¬(closeWait = 0 ∧ Text.startsWith (c :: (w ++ rest)) d.closing = true) := by
      rintro ⟨rfl, hstart⟩
      exact h 0 (Nat.succ_pos _) (Nat.le_refl 0) (List.isPrefixOf_iff_prefix.1 hstart)
    have hlater : ∀ i < w.length, closeWait - 1 ≤ i → ¬d.closing <+: (w ++ rest).drop i :=
      fun i hi hle ↦ h (i + 1) (Nat.succ_lt_succ hi) (by omega)
    rw [List.cons_append, close?_cons_of_not hnot]
    dsimp only
    rw [ih _ _ hlater, Option.map_map, seekAll, List.length_cons, Nat.sub_sub, Nat.add_comm 1]
    rfl

/-- Openings behind the closing are not counted. -/
theorem countOpenings_of_le (hd : d.usable = true) {closing depth : ℕ} {next : Option ℕ}
    (h : ∀ opening ∈ next, closing ≤ opening) :
    d.countOpenings hd content closing depth next = (depth, next) := by
  cases next with
  | none => rw [countOpenings]
  | some opening => rw [countOpenings, if_neg (Nat.not_lt.2 (h opening rfl))]

/-- An opening in front of the closing is counted. -/
theorem countOpenings_of_lt (hd : d.usable = true) {closing depth opening : ℕ}
    (h : opening < closing) :
    d.countOpenings hd content closing depth (some opening) =
      d.countOpenings hd content closing (depth + 1)
        (Text.findFrom? d.opening (opening + d.opening.size) content) := by
  rw [countOpenings, if_pos h]

theorem opening_ne_nil_of_usable (hd : d.usable = true) : d.opening ≠ [] := by
  rintro hnil
  simp [usable, hnil] at hd

/-- An opening that begins at a place in front of the closing is counted, and the next one is
searched behind its characters. -/
theorem countOpenings_of_startsWith (hd : d.usable = true) {closing : ℕ} {c : Char} {t : Text}
    (depth : ℕ) (hcontent : content = before ++ c :: t)
    (hstart : Text.startsWith (c :: t) d.opening = true) (hlt : before.size < closing) :
    d.countOpenings hd content closing depth (Text.findFrom? d.opening before.size content) =
      d.countOpenings hd content closing (depth + 1) (Text.findFrom? d.opening
        (before ++ [c] ++ t.take (d.opening.length - 1)).size content) := by
  have hne := opening_ne_nil_of_usable hd
  have hread : before.size + d.opening.size =
      (before ++ [c] ++ t.take (d.opening.length - 1)).size := by
    rw [← Text.size_append, ← List.append_cons, Text.cons_take_of_startsWith hne hstart]
  have hfound : Text.findFrom? d.opening before.size content = some before.size := by
    rw [hcontent]
    exact Text.findFrom?_of_startsWith hne hstart
  rw [hfound, countOpenings_of_lt hd hlt, hread]

/-- **The cursors count the openings that the walk reads.** Where the next opening is searched
behind the characters that the walk waits for, it is so again at the next closing. -/
theorem countOpenings_eq (hd : d.usable = true) (depth wait : ℕ)
    (hcontent : content = before ++ (w ++ rest)) :
    d.countOpenings hd content (before ++ w).size depth
        (Text.findFrom? d.opening (before ++ (w ++ rest).take wait).size content) =
      let sought := d.seekAll depth wait w rest
      (sought.1, Text.findFrom? d.opening (before ++ w ++ rest.take sought.2).size content) := by
  induction w generalizing before depth wait with
  | nil =>
    rw [List.append_nil, List.nil_append]
    refine countOpenings_of_le hd fun opening hopening ↦ ?_
    have hle := (Text.bounds_of_findFrom? hopening).1
    rw [Text.size_append] at hle
    omega
  | cons c w ih =>
    have hone : before ++ c :: w = before ++ [c] ++ w := List.append_cons ..
    have hnext : content = before ++ [c] ++ (w ++ rest) := by
      rw [hcontent, List.cons_append, ← List.append_cons]
    -- Behind the first character the walk and the cursors stand alike.
    have hbehind (depth wait : ℕ) := ih depth wait hnext
    rw [List.cons_append] at hcontent ⊢
    rw [hone, seekAll]
    rcases wait with - | wait
    · rw [List.take_zero, List.append_nil]
      by_cases hstart : Text.startsWith (c :: (w ++ rest)) d.opening = true
      · have hseek : d.seek depth 0 (c :: (w ++ rest)) = (depth + 1, d.opening.length) :=
          if_pos ⟨rfl, hstart⟩
        have hlt : before.size < (before ++ [c] ++ w).size := by
          have hpos := c.utf8Size_pos
          simp only [Text.size_append, Text.size_cons]
          omega
        rw [countOpenings_of_startsWith hd depth hcontent hstart hlt, hseek]
        exact hbehind (depth + 1) (d.opening.length - 1)
      · have hseek : d.seek depth 0 (c :: (w ++ rest)) = (depth, 0) := if_neg fun h ↦ hstart h.2
        have hlater := hbehind depth 0
        rw [List.take_zero, List.append_nil] at hlater
        rw [hseek, hcontent, Text.findFrom?_cons hstart, ← hcontent]
        exact hlater
    · have hseek : d.seek depth (wait + 1) (c :: (w ++ rest)) = (depth, wait + 1) :=
        if_neg fun h ↦ Nat.succ_ne_zero _ h.1
      have htake : before ++ (c :: (w ++ rest)).take (wait + 1) =
          before ++ [c] ++ (w ++ rest).take wait := List.append_cons ..
      rw [hseek, htake]
      exact hbehind depth wait

/-! ### The end of a tag -/

theorem closing_ne_nil_of_usable (hd : d.usable = true) : d.closing ≠ [] := by
  rintro hnil
  simp [usable, hnil] at hd

/-- Where no closing can be read, no tag ends. -/
theorem close?_eq_none {depth openWait closeWait : ℕ} {t : Text}
    (h : ¬d.closing <:+: t.drop closeWait) : d.close? depth openWait closeWait t = none := by
  induction t generalizing depth openWait closeWait with
  | nil => rfl
  | cons c t ih =>
    have hnot : ¬(closeWait = 0 ∧ Text.startsWith (c :: t) d.closing = true) := by
      rintro ⟨rfl, hstart⟩
      exact h (List.isPrefixOf_iff_prefix.1 hstart).isInfix
    have hlater : ¬d.closing <:+: t.drop (closeWait - 1) := by
      rcases closeWait with - | closeWait
      · exact fun hholds ↦ h (hholds.trans (List.suffix_cons c t).isInfix)
      · exact h
    rw [close?_cons_of_not hnot]
    dsimp only
    rw [ih hlater]
    rfl

/-- A closing and the text behind it, as the walk meets them. -/
theorem exists_cons_closing (hd : d.usable = true) (rest : Text) :
    ∃ c t, d.closing ++ rest = c :: t ∧ Text.startsWith (c :: t) d.closing = true ∧
      (c :: t).drop d.closing.length = rest := by
  obtain ⟨c, closing, hc⟩ := List.exists_cons_of_ne_nil (closing_ne_nil_of_usable hd)
  have hwalk : d.closing ++ rest = c :: (closing ++ rest) := by rw [hc]; rfl
  refine ⟨c, closing ++ rest, hwalk, Text.startsWith_iff.2 ⟨rest, hwalk.symm⟩, ?_⟩
  rw [← hwalk]
  exact List.drop_left

/-- At a closing with nothing open the tag ends, and what is still waited for is its overhang. -/
theorem close?_zero_closing (hd : d.usable = true) (openWait : ℕ) (rest : Text) :
    d.close? 0 openWait 0 (d.closing ++ rest) =
      some ⟨[], rest, openWait - d.closing.length⟩ := by
  obtain ⟨c, t, hwalk, hstart, hdrop⟩ := exists_cons_closing hd rest
  rw [hwalk, close?_zero_of_closing hstart, hdrop]

/-- A closing that balances an opening inside of the tag is walked through, and ends the tag only
when no end is found behind it. -/
theorem close?_succ_closing (hd : d.usable = true) (depth openWait : ℕ) (rest : Text) :
    d.close? (depth + 1) openWait 0 (d.closing ++ rest) =
      some ((d.close? depth openWait d.closing.length (d.closing ++ rest)).getD
        ⟨[], rest, openWait - d.closing.length⟩) := by
  obtain ⟨c, t, hwalk, hstart, hdrop⟩ := exists_cons_closing hd rest
  have hwait : ¬(d.closing.length = 0 ∧ Text.startsWith (c :: t) d.closing = true) :=
    fun h ↦ closing_ne_nil_of_usable hd (List.length_eq_zero_iff.1 h.1)
  rw [hwalk, close?_cons_of_not hwait, close?, if_pos ⟨rfl, hstart⟩, hdrop]
  dsimp only
  cases d.close? (d.seek depth openWait (c :: t)).1 ((d.seek depth openWait (c :: t)).2 - 1)
    (d.closing.length - 1) t <;> rfl

/-- What stands in front of the closing that is found next is walked through. -/
theorem not_closing_of_cut? {u rest b r : Text} (h : Text.cut? d.closing rest = some (b, r)) :
    ∀ i < (u ++ b).length, u.length ≤ i → ¬d.closing <+: (u ++ b ++ (d.closing ++ r)).drop i := by
  intro i hlt hle
  obtain ⟨j, rfl⟩ := Nat.exists_eq_add_of_le hle
  have hj : j < b.length := by
    rw [List.length_append] at hlt
    omega
  rw [List.append_assoc, List.drop_length_add_append,
    List.drop_append_of_le_length (Nat.le_of_lt hj)]
  refine Text.not_prefix_of_cut? h (List.drop_suffix _ _) fun hnil ↦ ?_
  have hlength := congrArg List.length hnil
  rw [List.length_drop, List.length_nil] at hlength
  omega

/-- Behind the last closing the tag ends there, though openings are left. -/
theorem balance_of_last (hd : d.usable = true) {closing depth : ℕ} {next : Option ℕ}
    (h : Text.findFrom? d.closing (closing + d.closing.size) content = none) :
    d.balance hd content closing (depth + 1) next = (closing, next) := by
  rw [balance]
  split
  · rfl
  · rename_i hlater
    rw [h] at hlater
    cases hlater

/-- At a later closing the openings up to it are counted, and one of them is closed. -/
theorem balance_of_later (hd : d.usable = true) {closing depth later : ℕ} {next : Option ℕ}
    (h : Text.findFrom? d.closing (closing + d.closing.size) content = some later) :
    d.balance hd content closing (depth + 1) next =
      let counted := d.countOpenings hd content later depth next
      d.balance hd content later counted.1 counted.2 := by
  rw [balance]
  split
  · rename_i hlater
    rw [h] at hlater
    cases hlater
  · rename_i hlater
    rw [h] at hlater
    cases hlater
    rfl

/-- **From one place to the next closing.** The walk goes on from there with as many openings to be
closed as the cursors have counted up to there, and the cursors search for the next opening behind
what the walk waits for. What stands behind the place belongs, up to the end of `read`, to a closing
that was read. -/
theorem exists_next_closing (hd : d.usable = true) (depth wait : ℕ) (read : Text) {rest b r : Text}
    (hcontent : content = before ++ (read ++ rest))
    (hcut : Text.cut? d.closing rest = some (b, r)) :
    content = before ++ (read ++ b) ++ (d.closing ++ r) ∧
    ∃ depth' wait',
      d.close? depth wait read.length (read ++ rest) =
        ((d.close? depth' wait' 0 (d.closing ++ r)).map fun later ↦
          { later with inner := read ++ b ++ later.inner }) ∧
      d.countOpenings hd content (before ++ (read ++ b)).size depth
          (Text.findFrom? d.opening (before ++ (read ++ rest).take wait).size content) =
        (depth', Text.findFrom? d.opening
          (before ++ (read ++ b) ++ (d.closing ++ r).take wait').size content) := by
  have hrest : read ++ rest = read ++ b ++ (d.closing ++ r) := by
    rw [Text.eq_append_of_cut? hcut]
    simp only [List.append_assoc]
  have hwait : read.length - (read ++ b).length = 0 := by
    rw [List.length_append]
    omega
  rw [hrest] at hcontent ⊢
  refine ⟨by simp only [hcontent, List.append_assoc], _, _, ?_,
    countOpenings_eq hd depth wait hcontent⟩
  have hwalk := d.close?_append depth wait (not_closing_of_cut? (u := read) hcut)
  rw [hwait] at hwalk
  exact hwalk

/-- **The cursors end the tag where the walk does**, from any closing on, and they search for the
next opening behind what the walk waits for there. -/
theorem balance_eq (hd : d.usable = true) (depth wait : ℕ)
    (hcontent : content = before ++ (d.closing ++ rest)) :
    ∃ inner wait' after,
      d.close? depth wait 0 (d.closing ++ rest) =
        some ⟨inner, after, wait' - d.closing.length⟩ ∧
      d.balance hd content before.size depth
          (Text.findFrom? d.opening (before ++ (d.closing ++ rest).take wait).size content) =
        ((before ++ inner).size, Text.findFrom? d.opening
          (before ++ inner ++ (d.closing ++ after).take wait').size content) := by
  induction hlength : rest.length using Nat.strongRecOn generalizing before rest depth wait with
  | ind n ih =>
    rcases depth with - | depth
    · refine ⟨[], wait, rest, close?_zero_closing hd wait rest, ?_⟩
      rw [balance, List.append_nil]
    · have hfind : Text.findFrom? d.closing (before.size + d.closing.size) content =
          (Text.cut? d.closing rest).map fun found ↦ (before ++ d.closing).size + found.1.size := by
        rw [← Text.size_append, ← Text.findFrom?_append, hcontent, List.append_assoc]
      rw [close?_succ_closing hd]
      rcases hcut : Text.cut? d.closing rest with - | ⟨b, r⟩
      · -- This closing is the last one.
        rw [hcut] at hfind
        have hnone : ¬d.closing <:+: (d.closing ++ rest).drop d.closing.length := by
          rw [List.drop_left]
          exact Text.not_infix_of_cut? (closing_ne_nil_of_usable hd) hcut
        refine ⟨[], wait, rest, ?_, ?_⟩
        · rw [close?_eq_none hnone]
          rfl
        · rw [balance_of_last hd hfind, List.append_nil]
      · have hlater : Text.findFrom? d.closing (before.size + d.closing.size) content =
            some (before ++ (d.closing ++ b)).size := by
          rw [hfind, hcut, Option.map_some, ← Text.size_append, List.append_assoc]
        obtain ⟨hnext, depth', wait', hwalk, hcounted⟩ :=
          exists_next_closing hd depth wait d.closing hcontent hcut
        have hshorter : r.length < n := by
          have hpos := List.length_pos_iff.2 (closing_ne_nil_of_usable hd)
          rw [← hlength, Text.eq_append_of_cut? hcut, List.length_append, List.length_append]
          omega
        obtain ⟨inner, wait'', after, hclose, hbalance⟩ := ih _ hshorter depth' wait' hnext rfl
        refine ⟨d.closing ++ b ++ inner, wait'', after, ?_, ?_⟩
        · rw [hwalk, hclose]
          rfl
        · rw [balance_of_later hd hlater, hcounted]
          dsimp only
          rw [hbalance]
          simp only [List.append_assoc]

/-! ### The next tag -/

/-- The next opening is searched first behind an opening that reaches past the end of the tag, and
then from that end on. -/
theorem next_eq (hd : d.usable = true) {front rest : Text} (wait : ℕ)
    (hcontent : content = front ++ (d.closing ++ rest)) :
    ((Text.findFrom? d.opening (front ++ (d.closing ++ rest).take wait).size content).filter
        ((front ++ d.closing).size ≤ ·)).or
      (Text.findFrom? d.opening (front ++ d.closing).size content) =
    (d.open? (wait - d.closing.length) rest).map fun found ↦
      (front ++ d.closing).size + found.1.size := by
  have hfrom : Text.findFrom? d.opening (front ++ d.closing).size content =
      (Text.cut? d.opening rest).map fun found ↦ (front ++ d.closing).size + found.1.size := by
    rw [← Text.findFrom?_append, hcontent, List.append_assoc]
  rcases Nat.lt_or_ge wait d.closing.length with hlt | hge
  · -- The openings that were read end within the closing.
    have htake : (d.closing ++ rest).take wait = d.closing.take wait :=
      List.take_append_of_le_length (Nat.le_of_lt hlt)
    have hskip : front ++ d.closing = front ++ d.closing.take wait ++ d.closing.drop wait := by
      rw [List.append_assoc, List.take_append_drop]
    have hsplit : content = front ++ d.closing.take wait ++ (d.closing.drop wait ++ rest) := by
      rw [hcontent, ← List.append_assoc, hskip, List.append_assoc]
    rw [htake, Nat.sub_eq_zero_of_le (Nat.le_of_lt hlt), open?_zero, ← hfrom, hskip, hsplit]
    exact Text.filter_or_findFrom? (opening_ne_nil_of_usable hd) _ _ _
  · -- An opening that was read reaches past the end of the tag, by so many characters.
    obtain ⟨overhang, rfl⟩ := Nat.exists_eq_add_of_le hge
    have htake : (d.closing ++ rest).take (d.closing.length + overhang) =
        d.closing ++ rest.take overhang := List.take_length_add_append ..
    have hbehind :
        Text.findFrom? d.opening (front ++ (d.closing ++ rest.take overhang)).size content =
          (Text.cut? d.opening (rest.drop overhang)).map fun found ↦
            (front ++ (d.closing ++ rest.take overhang)).size + found.1.size := by
      rw [← Text.findFrom?_append, hcontent]
      simp only [List.append_assoc, List.take_append_drop]
    rw [htake, Nat.add_sub_cancel_left, hfrom, hbehind, open?]
    cases Text.cut? d.opening (rest.drop overhang) with
    | none => rfl
    | some found =>
      have hle : (front ++ d.closing).size ≤
          (front ++ (d.closing ++ rest.take overhang)).size + found.1.size := by
        simp only [Text.size_append]
        omega
      rw [Option.map_some, Option.filter_some, if_pos (decide_eq_true hle), Option.some_or]
      simp only [Option.map_some, Text.size_append, Nat.add_assoc]

/-! ### The tags -/

/-- The tag in a span, as it is found. -/
def foundAt (d : Delimiters) (span : Span) : FoundTag :=
  ⟨d.wrap span.inner, span.inner, span.start⟩

/-- **The end of a tag is found** behind its opening, where a closing follows. -/
theorem ended_eq (hd : d.usable = true) {front inside : Text} {closing : ℕ}
    (hcontent : content = front ++ inside)
    (hclosing : Text.findFrom? d.closing front.size content = some closing) :
    ∃ inner wait after,
      d.close? 0 0 0 inside = some ⟨inner, after, wait - d.closing.length⟩ ∧
      d.balance hd content closing
          (d.countOpenings hd content closing 0 (Text.findFrom? d.opening front.size content)).1
          (d.countOpenings hd content closing 0 (Text.findFrom? d.opening front.size content)).2 =
        ((front ++ inner).size, Text.findFrom? d.opening
          (front ++ inner ++ (d.closing ++ after).take wait).size content) := by
  rw [hcontent, Text.findFrom?_append] at hclosing
  obtain ⟨⟨b, r⟩, hcut, rfl⟩ := Option.map_eq_some_iff.1 hclosing
  obtain ⟨hnext, depth, wait, hwalk, hcounted⟩ :=
    exists_next_closing hd 0 0 [] (show content = front ++ ([] ++ inside) from hcontent) hcut
  obtain ⟨inner, wait', after, hclose, hbalance⟩ := balance_eq hd depth wait hnext
  simp only [List.nil_append, List.take_zero, List.append_nil] at hwalk hcounted hbalance
  refine ⟨b ++ inner, wait', after, ?_, ?_⟩
  · rw [List.length_nil] at hwalk
    rw [hwalk, hclose]
    rfl
  · rw [← Text.size_append, hcounted]
    dsimp only
    rw [hbalance]
    simp only [List.append_assoc]

/-- Without a closing behind the opening there are no more tags. -/
theorem locateFrom?_of_none (hd : d.usable = true) {stop start : ℕ}
    (h : Text.findFrom? d.closing (start + d.opening.size) content = none) :
    d.locateFrom? hd content stop start = some [] := by
  rw [locateFrom?]
  split
  · dsimp only
    split
    · rfl
    · rename_i hclosing
      rw [h] at hclosing
      cases hclosing
  · rfl

/-- A tag that begins in front of the last closing is sliced out, and the search goes on. -/
theorem locateFrom?_of_some (hd : d.usable = true) {stop start closing ended : ℕ}
    {next : Option ℕ} (tag : FoundTag) (hstart : start < stop) (hbegins : tag.start = start)
    (hclosing : Text.findFrom? d.closing (start + d.opening.size) content = some closing)
    (hended : d.balance hd content closing
      (d.countOpenings hd content closing 0
        (Text.findFrom? d.opening (start + d.opening.size) content)).1
      (d.countOpenings hd content closing 0
        (Text.findFrom? d.opening (start + d.opening.size) content)).2 = (ended, next))
    (houter : content.slice? start (ended + d.closing.size) = some tag.outer)
    (hinner : content.slice? (start + d.opening.size) ended = some tag.inner) :
    d.locateFrom? hd content stop start =
      (((next.filter (ended + d.closing.size ≤ ·)).or
        (Text.findFrom? d.opening (ended + d.closing.size) content)).elim (some [])
          (d.locateFrom? hd content stop)).map (tag :: ·) := by
  rw [locateFrom?, dif_pos hstart]
  dsimp only
  split
  · rename_i hnone
    rw [hclosing] at hnone
    cases hnone
  · -- The closing is there, and both slices are.
    rename_i found hfound
    rw [hclosing] at hfound
    cases hfound
    simp only [hended, houter, hinner, Option.bind_eq_bind, Option.bind_some]
    split
    · -- There is no further opening.
      rename_i hnext
      rw [hended] at hnext
      rw [hnext, ← hbegins]
      rfl
    · -- The search goes on at the next opening.
      rename_i start' hnext
      rw [hended] at hnext
      rw [hnext, ← hbegins, Option.elim_some]
      cases d.locateFrom? hd content stop start' <;> rfl

/-! What is found from an opening on, behind which `inside` stands. -/

section Opening

variable {inside : Text} {stop last : ℕ}

/-- The cursors find no tag where the walk finds no end of one. -/
theorem locateFrom?_of_close?_none (hd : d.usable = true)
    (hcontent : content = before ++ d.opening ++ inside) (hclose : d.close? 0 0 0 inside = none) :
    d.locateFrom? hd content stop before.size = some [] := by
  refine locateFrom?_of_none hd ?_
  rw [← Text.size_append]
  cases hclosing : Text.findFrom? d.closing (before ++ d.opening).size content with
  | none => rfl
  | some closing =>
    obtain ⟨inner, wait, after, hended, -⟩ := ended_eq hd hcontent hclosing
    rw [hclose] at hended
    cases hended

/-- Where the walk finds the end of a tag, the cursors find a closing. -/
theorem exists_findFrom?_closing (hd : d.usable = true) {front : Text} {e : TagEnd}
    (hcontent : content = front ++ inside) (hclose : d.close? 0 0 0 inside = some e) :
    ∃ closing, Text.findFrom? d.closing front.size content = some closing := by
  rw [hcontent, Text.findFrom?_append]
  cases hcut : Text.cut? d.closing inside with
  | none =>
    exact absurd ⟨e.inner, e.rest, (eq_of_close? hclose).symm⟩
      (Text.not_infix_of_cut? (closing_ne_nil_of_usable hd) hcut)
  | some found => exact ⟨_, rfl⟩

/-- **One tag.** Where the walk finds the end of a tag, the cursors find the same one, and go on at
the opening that the walk would read next. -/
theorem locateFrom?_of_close?_some (hd : d.usable = true) {e : TagEnd}
    (hcontent : content = before ++ d.opening ++ inside)
    (hlast : Text.findLast? d.closing content = some last)
    (hclose : d.close? 0 0 0 inside = some e) :
    d.locateFrom? hd content (last + d.closing.size) before.size =
      (((d.open? e.overhang e.rest).map fun found ↦
          (before ++ d.wrap e.inner).size + found.1.size).elim (some [])
        (d.locateFrom? hd content (last + d.closing.size))).map
          (⟨d.wrap e.inner, e.inner, before.size⟩ :: ·) := by
  obtain ⟨closing, hclosing⟩ := exists_findFrom?_closing hd hcontent hclose
  obtain ⟨inner, wait, after, hended, hbalance⟩ := ended_eq hd hcontent hclosing
  rw [hclose] at hended
  cases hended
  -- The cursors and the walk end the tag at the same closing.
  have hclosed : content = before ++ d.opening ++ inner ++ (d.closing ++ after) := by
    rw [hcontent, eq_of_close? hclose]
    simp only [List.append_assoc]
  have hbehind : before ++ d.opening ++ inner ++ d.closing = before ++ d.wrap inner := by
    simp only [wrap, List.append_assoc]
  have hstart : before.size < last + d.closing.size := by
    have hle := Text.size_le_of_findLast? hlast hclosed
    have hpos := size_closing_pos hd
    simp only [Text.size_append] at hle
    omega
  -- Its offsets are sizes of what stands before them, so that the slices exist.
  have houter : content.slice? before.size ((before ++ d.opening ++ inner).size + d.closing.size) =
      some (d.wrap inner) := by
    have hcut := Text.slice?_append before (d.wrap inner) after
    rwa [← List.append_assoc, ← hbehind, List.append_assoc, ← hclosed, ← Text.size_append,
      ← hbehind, Text.size_append] at hcut
  have hinner : content.slice? (before.size + d.opening.size) (before ++ d.opening ++ inner).size =
      some inner := by
    have hcut := Text.slice?_append (before ++ d.opening) inner (d.closing ++ after)
    rwa [← List.append_assoc, ← hclosed, ← Text.size_append, Text.size_append before] at hcut
  -- And the next opening is searched where the walk goes on.
  have hnext := next_eq hd wait hclosed
  rw [Text.size_append before] at hclosing hbalance
  rw [locateFrom?_of_some hd ⟨d.wrap inner, inner, before.size⟩ hstart rfl hclosing hbalance
    houter hinner, ← Text.size_append, hnext, hbehind]

end Opening

/-- **The tags are found** that the walk finds, from any place on at which the walk begins anew. -/
theorem locateFrom?_eq (hd : d.usable = true) {last overhang : ℕ} {t : Text}
    (hcontent : content = before ++ t) (hlast : Text.findLast? d.closing content = some last) :
    ((d.open? overhang t).map fun found ↦ before.size + found.1.size).elim (some [])
        (d.locateFrom? hd content (last + d.closing.size)) =
      some ((Piece.spans d before.size (d.scanFrom hd overhang t)).map d.foundAt) := by
  fun_induction scanFrom d hd overhang t generalizing before with
  | case1 overhang t hopen =>
    rw [hopen]
    rfl
  | case2 overhang t b inside hopen hclose =>
    have hinside : content = before ++ b ++ d.opening ++ inside := by
      rw [hcontent, eq_of_open? hopen]
      simp only [List.append_assoc]
    rw [hopen, Option.map_some, Option.elim_some, ← Text.size_append,
      locateFrom?_of_close?_none hd hinside hclose]
    rfl
  | case3 overhang t b inside hopen e hclose ih =>
    have hinside : content = before ++ b ++ d.opening ++ inside := by
      rw [hcontent, eq_of_open? hopen]
      simp only [List.append_assoc]
    have hbehind : content = before ++ b ++ d.wrap e.inner ++ e.rest := by
      rw [hinside, eq_of_close? hclose, wrap]
      simp only [List.append_assoc]
    rw [hopen, Option.map_some, Option.elim_some, ← Text.size_append,
      locateFrom?_of_close?_some hd hinside hlast hclose, ih hbehind]
    simp only [Text.size_append, Option.map_some, Piece.spans, Piece.written, List.map_cons,
      foundAt]

/-- Where the cursors do not begin, there is no tag. -/
theorem spans_scanFrom_eq_nil (hd : d.usable = true)
    (h : ∀ start last,
      (d.open? 0 content).map (fun found ↦ Text.size [] + found.1.size) = some start →
        Text.findLast? d.closing content = some last → False) :
    Piece.spans d 0 (d.scanFrom hd 0 content) = [] := by
  rw [scanFrom]
  split
  · rfl
  · rename_i b inside hopen
    split
    · rfl
    · rename_i e hclose
      cases hlast : Text.findLast? d.closing content with
      | none =>
        refine absurd ⟨b ++ d.opening ++ e.inner, e.rest, ?_⟩ (Text.not_infix_of_findLast? hlast)
        rw [eq_of_open? hopen, eq_of_close? hclose]
        simp only [List.append_assoc]
      | some last =>
        rw [hopen] at h
        exact (h _ last rfl hlast).elim

/-- **The scan with cursors has an answer for every content and all delimiters**: the tags of the
walk, each of them with what stands between its offsets. -/
theorem locate?_eq (d : Delimiters) (content : Text) :
    d.locate? content = some ((d.spans content).map d.foundAt) := by
  rw [locate?, spans, scan]
  split
  · rename_i hd
    have hbegins : Text.findFrom? d.opening 0 content =
        (d.open? 0 content).map fun found ↦ Text.size [] + found.1.size := by
      rw [open?_zero]
      exact Text.findFrom?_append d.opening [] content
    rw [hbegins]
    split
    · rename_i start last hstart hlast
      have hfound : ((d.open? 0 content).map fun found ↦ Text.size [] + found.1.size).elim (some [])
          (d.locateFrom? hd content (last + d.closing.size)) =
          some ((Piece.spans d 0 (d.scanFrom hd 0 content)).map d.foundAt) :=
        locateFrom?_eq hd rfl hlast
      rwa [hstart] at hfound
    · rename_i hnot
      rw [spans_scanFrom_eq_nil hd hnot]
      rfl
  · rfl

/-! ### Where the tags stand -/

variable {span : Span}

/-- A tag stands in the content between its offsets. -/
theorem exists_of_mem_spans (h : span ∈ d.spans content) :
    ∃ before after, content = before ++ (d.wrap span.inner ++ after) ∧
      span.start = before.size ∧ span.stop = before.size + (d.wrap span.inner).size := by
  obtain ⟨before, after, hscan, hstart, hstop⟩ := Piece.exists_of_mem_spans h
  rw [Nat.zero_add] at hstart
  refine ⟨Piece.unite d before, Piece.unite d after, ?_, hstart, by rw [hstop, hstart]⟩
  rw [← d.unite_scan content, hscan]
  simp [Piece.unite, Piece.written]

/-- The offsets of the tag that is found for a span are those of the span. -/
theorem span_foundAt (h : span ∈ d.spans content) : (d.foundAt span).span = span := by
  obtain ⟨before, after, -, hstart, hstop⟩ := exists_of_mem_spans h
  have hend : span.start + (d.wrap span.inner).size = span.stop := by rw [hstop, hstart]
  rw [FoundTag.span, FoundTag.stop, foundAt, hend]

/-- No tag is empty: where a delimiter is, there are no tags. -/
theorem start_lt_stop_of_mem_spans (h : span ∈ d.spans content) : span.start < span.stop := by
  obtain ⟨before, after, -, hstart, hstop⟩ := exists_of_mem_spans h
  have hd : d.usable = true := by
    by_contra hd
    rw [spans, scan, dif_neg hd] at h
    cases h
  have hpos := size_opening_pos hd
  rw [hstart, hstop, wrap, Text.size_append, Text.size_append]
  omega

/-- The tags that are found have the spans of the walk. -/
theorem map_span_foundAt (d : Delimiters) (content : Text) :
    ((d.spans content).map d.foundAt).map FoundTag.span = d.spans content := by
  rw [List.map_map]
  exact (List.map_congr_left fun span h ↦ span_foundAt h).trans (List.map_id _)

/-- **The scan with cursors counts delimiters.** With delimiters that have no character in common,
the tags that the cursors find are those that are counted out, one behind the other, and an opening
stands inside of one of them, or else behind all of them, and then no closing follows. -/
theorem Separate.locate?_eq_counted (hd : d.Separate) (content : Text) :
    ∃ found, d.locate? content = some found ∧
      found.map FoundTag.span = d.countedFrom hd.opening_ne_nil 0 content ∧
      ∀ a b, content = a ++ (d.opening ++ b) →
        (∃ tag ∈ found, tag.start ≤ a.size ∧ a.size < tag.stop) ∨
          (∀ tag ∈ found, tag.stop ≤ a.size) ∧ ¬d.closing <:+: b := by
  have hspans := d.map_span_foundAt content
  refine ⟨_, d.locate?_eq content, hspans.trans (hd.spans_scan 0 content), fun a b h ↦ ?_⟩
  have hopening := hd.opening_in_span h
  rw [← hspans] at hopening
  obtain ⟨span, hspan, hinside⟩ | ⟨hbefore, hnone⟩ := hopening
  · obtain ⟨tag, htag, rfl⟩ := List.mem_map.1 hspan
    exact .inl ⟨tag, htag, hinside⟩
  · exact .inr ⟨fun tag htag ↦ hbefore _ (List.mem_map_of_mem htag), hnone⟩

/-- **The tags are located safely, whatever the delimiters are.** The scan with cursors has an
answer for every content: no slice is asked for that begins behind its end, or begins or ends inside
of a character. The tags are those of the walk. They begin one behind the other, each at or behind
the end of the one before and each ending within the content, and a tag is the content between its
offsets, its inner text between the delimiters. -/
theorem tags_located_safely (d : Delimiters) (content : Text) :
    ∃ found, d.locate? content = some found ∧
      found.map FoundTag.span = d.spans content ∧
      (found.Pairwise fun tag next ↦ tag.start < next.start ∧ tag.stop ≤ next.start) ∧
      ∀ tag ∈ found, tag.stop ≤ content.size ∧
        content.slice? tag.start tag.stop = some tag.outer ∧
        tag.outer = d.opening ++ tag.inner ++ d.closing := by
  have hstop {span : Span} (h : span ∈ d.spans content) : (d.foundAt span).stop = span.stop :=
    congrArg Span.stop (span_foundAt h)
  refine ⟨_, d.locate?_eq content, d.map_span_foundAt content, ?_, ?_⟩
  · rw [List.pairwise_map]
    refine (Piece.pairwise_spans d 0 (d.scan content)).imp_of_mem fun hspan hnext hle ↦ ?_
    rw [hstop hspan]
    exact ⟨(start_lt_stop_of_mem_spans hspan).trans_le hle, hle⟩
  · intro tag htag
    obtain ⟨span, hspan, rfl⟩ := List.mem_map.1 htag
    obtain ⟨before, after, hcontent, hstart, hend⟩ := exists_of_mem_spans hspan
    rw [hstop hspan, hend]
    refine ⟨?_, ?_, rfl⟩
    · rw [hcontent, Text.size_append, Text.size_append]
      omega
    · rw [foundAt, hstart, hcontent]
      exact Text.slice?_append before (d.wrap span.inner) after

end Delimiters

end TagTemplate
