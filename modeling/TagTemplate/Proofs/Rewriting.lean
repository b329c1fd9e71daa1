import TagTemplate.Proofs.Lookup
import TagTemplate.Proofs.Replacement
import TagTemplate.Text.SearchIndex

/-!
# Replacement in one pass

What a replacement does to a text is told by a relation (`Rewrites`): at each place either the rule
that is `Picked` there is carried out and the pass goes on behind what it read, or no rule matches
and one character is copied. So what was put out is never looked at again. `replaceAll` is the only
function that the relation allows (`replaceAll_eq_iff`).

Of the rules nothing counts but the first replacement of each search text (`replaceAll_congr`). In
particular rules with distinct search texts may stand in any order, and empty search texts may be
left out.

The search through an index comes to the same (`SearchIndex.replace?_ofRules`), and always has an
answer. Two facts carry this. An index finds under each search text what the rules have for it, and
a bucket tries the sizes in descending order, so the first hit is the rule that is picked
(`SearchIndex.longest?_ofRules`). And a byte that begins a search text begins a character of the
text as well (`findByte?_cases`), so each round cuts between characters.
-/

namespace TagTemplate.Text

variable {rules : List Rule} {t out : Text} {rule : Rule}

/-! ### The rule that is picked -/

/-- The rule for the start of the text: it matches there, it is the first one with its search text,
and no rule that matches reads more. -/
structure Picked (rules : List Rule) (t : Text) (rule : Rule) : Prop where
  isMatch : Matches rule t
  first : rules.lookup rule.1 = some rule.2
  longest : ∀ other ∈ rules, Matches other t → other.1.length ≤ rule.1.length

/-- Of the rules with one search text, the first one applies. -/
theorem lookup_of_ruleAt? (h : ruleAt? rules t = some rule) :
    rules.lookup rule.1 = some rule.2 := by
  induction rules with
  | nil => cases h
  | cons first rules ih =>
    rw [ruleAt?] at h
    rw [Dict.lookup_cons]
    by_cases hmatch : Matches first t
    · rw [if_pos (matches_iff.2 hmatch)] at h
      cases hrest : ruleAt? rules t with
      | none =>
        rw [hrest] at h
        cases h
        exact if_pos rfl
      | some second =>
        simp only [hrest, longer] at h
        split at h
        · rename_i hlt
          cases h
          rw [if_neg fun hsame ↦ Nat.ne_of_lt hlt (congrArg List.length hsame), ih hrest]
        · cases h
          exact if_pos rfl
    · rw [if_neg (mt matches_iff.1 hmatch)] at h
      have hrest : ruleAt? rules t = some rule := h
      have hrule := (ruleAt?_spec hrest).2.1
      rw [if_neg fun hsame ↦ hmatch (by rw [Matches, hsame]; exact hrule), ih hrest]

/-- No two rules are picked at one place. -/
theorem Picked.eq {rule' : Rule} (h : Picked rules t rule) (h' : Picked rules t rule') :
    rule = rule' := by
  have hle := h'.longest _ (Dict.mem_of_lookup h.first) h.isMatch
  have hge := h.longest _ (Dict.mem_of_lookup h'.first) h'.isMatch
  have hsearch : rule.1 = rule'.1 :=
    (List.prefix_of_prefix_length_le h.isMatch.2 h'.isMatch.2 hle).eq_of_length_le hge
  have hreplacement := h'.first
  rw [← hsearch, h.first, Option.some.injEq] at hreplacement
  exact Prod.ext hsearch hreplacement

/-- **The rule that applies is the rule that is picked.** -/
theorem ruleAt?_eq_some_iff : ruleAt? rules t = some rule ↔ Picked rules t rule := by
  have hpicked {found : Rule} (h : ruleAt? rules t = some found) : Picked rules t found := by
    obtain ⟨-, hmatch, hlongest⟩ := ruleAt?_spec h
    exact ⟨hmatch, lookup_of_ruleAt? h, hlongest⟩
  refine ⟨hpicked, fun h ↦ ?_⟩
  cases hfound : ruleAt? rules t with
  | none => exact absurd h.isMatch (ruleAt?_eq_none_iff.1 hfound _ (Dict.mem_of_lookup h.first))
  | some found => rw [(hpicked hfound).eq h]

/-! ### One pass -/

/-- One pass over a text, from left to right. -/
inductive Rewrites (rules : List Rule) : Text → Text → Prop
  | nil : Rewrites rules [] []
  /-- What the rule read is replaced, and the pass goes on behind it. -/
  | replace {rule : Rule} {rest out : Text} (hpicked : Picked rules (rule.1 ++ rest) rule)
      (hrest : Rewrites rules rest out) : Rewrites rules (rule.1 ++ rest) (rule.2 ++ out)
  /-- A character at which no rule matches is copied. -/
  | copy {c : Char} {rest out : Text} (hnone : ∀ rule ∈ rules, ¬Matches rule (c :: rest))
      (hrest : Rewrites rules rest out) : Rewrites rules (c :: rest) (c :: out)

/-- There is no other rewriting of a text than the replacement. -/
theorem Rewrites.replaceAll_eq (h : Rewrites rules t out) : replaceAll rules t = out := by
  induction h with
  | nil => rfl
  | replace hpicked _ ih =>
    rw [replaceAll_of_ruleAt? (ruleAt?_eq_some_iff.2 hpicked), List.drop_left, ih]
  | copy hnone _ ih => rw [replaceAll_cons_of_none (ruleAt?_eq_none_iff.2 hnone), ih]

/-- The replacement is a rewriting, by induction along the text. -/
theorem rewrites_replaceAll (rules : List Rule) (t : Text) :
    Rewrites rules t (replaceAll rules t) := by
  induction hlen : t.length using Nat.strongRecOn generalizing t with
  | ind n ih =>
    rcases t with - | ⟨c, t⟩
    · exact .nil
    · cases hrule : ruleAt? rules (c :: t) with
      | none =>
        rw [replaceAll_cons_of_none hrule]
        exact .copy (ruleAt?_eq_none_iff.1 hrule) (ih t.length (by rw [← hlen]; simp) t rfl)
      | some rule =>
        have hpicked := ruleAt?_eq_some_iff.1 hrule
        obtain ⟨hne, rest, hrest⟩ := hpicked.isMatch
        have hpos := List.length_pos_iff.2 hne
        rw [replaceAll_of_ruleAt? hrule, ← hrest, List.drop_left]
        rw [← hrest] at hpicked hlen
        rw [List.length_append] at hlen
        exact .replace hpicked (ih rest.length (by omega) rest rfl)

/-- **Replacing is one pass**, and the relation leaves no other result. -/
theorem replaceAll_eq_iff : replaceAll rules t = out ↔ Rewrites rules t out :=
  ⟨fun h ↦ h ▸ rewrites_replaceAll rules t, Rewrites.replaceAll_eq⟩

/-! ### What counts of the rules -/

/-- What is picked depends on what is found for searches that are not empty. -/
theorem Picked.congr {rules' : List Rule}
    (h : ∀ search ≠ [], rules'.lookup search = rules.lookup search)
    (hpicked : Picked rules t rule) : Picked rules' t rule where
  isMatch := hpicked.isMatch
  first := (h _ hpicked.isMatch.1).trans hpicked.first
  longest other hmem hmatch := by
    have hsome := Dict.isSome_lookup_of_mem hmem
    rw [h _ hmatch.1, Option.isSome_iff_exists] at hsome
    obtain ⟨replacement, hlookup⟩ := hsome
    exact hpicked.longest (other.1, replacement) (Dict.mem_of_lookup hlookup) hmatch

/-- **Only the first replacement of each search text counts.** -/
theorem replaceAll_congr {rules' : List Rule}
    (h : ∀ search ≠ [], rules'.lookup search = rules.lookup search) (t : Text) :
    replaceAll rules' t = replaceAll rules t := by
  have hrule (t : Text) : ruleAt? rules' t = ruleAt? rules t := by
    refine Option.ext fun rule ↦ ?_
    rw [ruleAt?_eq_some_iff, ruleAt?_eq_some_iff]
    exact ⟨.congr fun search hne ↦ (h search hne).symm, .congr h⟩
  have hfrom (skip : ℕ) (t : Text) : replaceFrom rules' skip t = replaceFrom rules skip t := by
    induction t generalizing skip with
    | nil => rw [replaceFrom, replaceFrom]
    | cons c t ih =>
      rcases skip with - | skip
      · rw [replaceFrom, replaceFrom, hrule]
        simp only [ih]
      · exact ih skip
  exact hfrom 0 t

/-- Rules with distinct search texts may stand in any order. -/
theorem replaceAll_perm {rules' : List Rule} (hperm : rules'.Perm rules)
    (h : (rules.map (·.1)).Nodup) (t : Text) : replaceAll rules' t = replaceAll rules t := by
  have h' : (rules'.map (·.1)).Nodup := (hperm.map _).nodup_iff.2 h
  refine replaceAll_congr (fun search _ ↦ Option.ext fun replacement ↦ ?_) t
  rw [Dict.lookup_eq_some_iff_mem h, Dict.lookup_eq_some_iff_mem h', hperm.mem_iff]

/-- Empty search texts may be left out. -/
theorem replaceAll_filter (rules : List Rule) (t : Text) :
    replaceAll (rules.filter (·.1 ≠ [])) t = replaceAll rules t := by
  refine replaceAll_congr (fun search hne ↦ ?_) t
  induction rules with
  | nil => rfl
  | cons rule rules ih =>
    rw [Dict.lookup_cons, List.filter_cons]
    split
    · rw [Dict.lookup_cons, ih]
    · rename_i hempty
      have hnil : rule.1 = [] := by simpa using hempty
      rw [ih, if_neg fun hsame ↦ hne (hsame.symm.trans hnil)]

/-! ### What an index has -/

/-- A bucket keeps the first replacement that it gets for a search. -/
theorem Bucket.lookup_insert (b : Bucket) {search : Text} (replacement : Text) (h : search ≠ [])
    (other : Text) : (b.insert search replacement h).rules.lookup other =
      (b.rules.lookup other).or (if search = other then some replacement else none) := by
  rw [Bucket.insert]
  split
  · rename_i hsome
    by_cases hsame : search = other
    · subst hsame
      obtain ⟨found, hfound⟩ := Option.isSome_iff_exists.1 hsome
      rw [hfound, Option.some_or]
    · rw [if_neg hsame, Option.or_none]
  · rw [List.lookup_append, Dict.lookup_cons]
    rfl

namespace SearchIndex

/-- Looking up in the buckets tries their bytes in turn. -/
theorem lookup_cons (byte : UInt8) (entry : UInt8 × Bucket) (buckets : List (UInt8 × Bucket)) :
    (entry :: buckets).lookup byte =
      if entry.1 = byte then some entry.2 else buckets.lookup byte := by
  change (match byte == entry.1 with
    | true => some entry.2
    | false => buckets.lookup byte) = _
  by_cases h : entry.1 = byte
  · rw [if_pos h, beq_iff_eq.2 h.symm]
  · rw [if_neg h, beq_eq_false_iff_ne.2 (Ne.symm h)]

/-- A change to the bucket of one byte is one to no other bucket. -/
theorem lookup_modify (byte : UInt8) (change : Bucket → Bucket) (buckets : List (UInt8 × Bucket))
    (other : UInt8) : (modify byte change buckets).lookup other =
      if byte = other then some (change ((buckets.lookup other).getD .empty))
      else buckets.lookup other := by
  induction buckets with
  | nil => exact lookup_cons other (byte, change .empty) []
  | cons entry buckets ih =>
    rw [modify]
    split
    · rename_i hentry
      rw [lookup_cons, lookup_cons, hentry]
      by_cases h : byte = other
      · rw [if_pos h, if_pos h, if_pos h, Option.getD_some]
      · rw [if_neg h, if_neg h, if_neg h]
    · rename_i hentry
      rw [lookup_cons, lookup_cons, ih]
      by_cases h : entry.1 = other
      · rw [if_pos h, if_pos h, if_neg fun hbyte ↦ hentry (h.trans hbyte.symm)]
      · rw [if_neg h, if_neg h]

/-- The replacement that the index has for a search text. -/
def replacement? (index : SearchIndex) : (search : Text) → Option Text
  | [] => none
  | c :: search => (index.bucket? (firstByte c)).bind (·.rules.lookup (c :: search))

/-- The index keeps the first replacement that it gets for a search. -/
theorem replacement?_insert (index : SearchIndex) (rule : Rule) {search : Text} (h : search ≠ []) :
    (index.insert rule).replacement? search =
      (index.replacement? search).or (if rule.1 = search then some rule.2 else none) := by
  obtain ⟨c, search, rfl⟩ := List.exists_cons_of_ne_nil h
  obtain ⟨_ | ⟨b, inserted⟩, replacement⟩ := rule
  · rw [if_neg (List.cons_ne_nil _ _).symm, Option.or_none]
    rfl
  · rw [insert, replacement?, replacement?, bucket?, bucket?, lookup_modify]
    split
    · rw [Option.bind_some, Bucket.lookup_insert]
      cases index.buckets.lookup (firstByte c) <;> rfl
    · rename_i hbyte
      rw [if_neg fun hsame : b :: inserted = c :: search ↦
        hbyte (congrArg firstByte (List.cons.inj hsame).1), Option.or_none]

/-- **The index finds what the rules have**, under every search text that is not empty. -/
theorem replacement?_ofRules (rules : List Rule) {search : Text} (h : search ≠ []) :
    (ofRules rules).replacement? search = rules.lookup search := by
  have hfold (index : SearchIndex) : (rules.foldl insert index).replacement? search =
      (index.replacement? search).or (rules.lookup search) := by
    induction rules generalizing index with
    | nil => exact (Option.or_none).symm
    | cons rule rules ih =>
      rw [List.foldl_cons, ih, replacement?_insert index rule h, Option.or_assoc, Dict.lookup_cons]
      split <;> rfl
  rw [ofRules, hfold]
  obtain ⟨c, search, rfl⟩ := List.exists_cons_of_ne_nil h
  rfl

/-- A search that begins here has a bucket, and is found in it. -/
theorem exists_bucket? {c : Char} {search replacement : Text} (hbegins : search <+: c :: t)
    (hne : search ≠ []) (h : rules.lookup search = some replacement) :
    ∃ b, (ofRules rules).bucket? (firstByte c) = some b ∧
      b.rules.lookup search = some replacement := by
  rw [← replacement?_ofRules rules hne] at h
  obtain ⟨d, search, rfl⟩ := List.exists_cons_of_ne_nil hne
  obtain rfl : d = c := (List.cons_prefix_cons.1 hbegins).1
  exact Option.bind_eq_some_iff.1 h

/-- What a bucket has for a search that begins here is what the rules have. -/
theorem lookup_of_bucket? {c : Char} {search : Text} {b : Bucket}
    (hb : (ofRules rules).bucket? (firstByte c) = some b) (hbegins : search <+: c :: t)
    (hne : search ≠ []) : b.rules.lookup search = rules.lookup search := by
  rw [← replacement?_ofRules rules hne]
  obtain ⟨d, search, rfl⟩ := List.exists_cons_of_ne_nil hne
  obtain rfl : d = c := (List.cons_prefix_cons.1 hbegins).1
  rw [replacement?, hb, Option.bind_some]

theorem size_mem_sizes {b : Bucket} {search replacement : Text}
    (h : b.rules.lookup search = some replacement) : Text.size search ∈ b.sizes :=
  b.sized (search, replacement) (Dict.mem_of_lookup h)

/-- The sizes are tried in descending order, so a hit is the rule that is picked. -/
theorem picked_of_longest? {c : Char} {replacement : Text} {size : ℕ} {b : Bucket}
    (hb : (ofRules rules).bucket? (firstByte c) = some b)
    (h : b.longest? (c :: t) = some (size, replacement)) :
    ∃ search : Text, search.size = size ∧ Picked rules (c :: t) (search, replacement) := by
  obtain ⟨before, tried, after, hsizes, hhit, hmissed⟩ := List.findSome?_eq_some_iff.1 h
  obtain ⟨rfl, search, hbegins, hsize, hlookup⟩ := Bucket.hit?_eq_some_iff.1 hhit
  have hne : search ≠ [] := by
    rintro rfl
    exact absurd hsize (Nat.ne_of_lt (Bucket.positive_of_longest? h))
  rw [lookup_of_bucket? hb hbegins hne] at hlookup
  refine ⟨search, hsize, ⟨hne, hbegins⟩, hlookup, fun other hmem hmatch ↦ ?_⟩
  -- No longer search was tried before, or it would have hit.
  have hle : other.1.size ≤ size := by
    obtain ⟨found, hother⟩ := Option.isSome_iff_exists.1 (Dict.isSome_lookup_of_mem hmem)
    rw [← lookup_of_bucket? hb hmatch.2 hmatch.1] at hother
    have hin := size_mem_sizes hother
    have hdescending := b.descending
    rw [hsizes] at hin hdescending
    rcases List.mem_append.1 hin with hin | hin
    · have hhit := Bucket.hit?_eq_some_iff.2 ⟨rfl, other.1, hmatch.2, rfl, hother⟩
      rw [hmissed _ hin] at hhit
      cases hhit
    · rcases List.mem_cons.1 hin with hsame | hin
      · exact Nat.le_of_eq hsame
      · exact (List.pairwise_cons.1 (List.pairwise_append.1 hdescending).2.1).1 _ hin
  -- Of two searches that begin here, the one with fewer bytes begins the other one.
  refine Nat.le_of_not_lt fun hlt ↦ ?_
  obtain ⟨more, hmore⟩ := List.prefix_of_prefix_length_le hbegins hmatch.2 (Nat.le_of_lt hlt)
  have hpos : 0 < Text.size more := size_pos fun hnil ↦ by
    rw [← hmore, hnil, List.append_nil] at hlt
    exact Nat.lt_irrefl _ hlt
  rw [← hmore, size_append, hsize] at hle
  omega

/-- **The longest search text of a bucket is that of the rule that applies.** -/
theorem longest?_ofRules (rules : List Rule) (c : Char) (t : Text) :
    ((ofRules rules).bucket? (firstByte c)).bind (·.longest? (c :: t)) =
      (ruleAt? rules (c :: t)).map fun rule ↦ (Text.size rule.1, rule.2) := by
  cases hfound : ((ofRules rules).bucket? (firstByte c)).bind (·.longest? (c :: t)) with
  | some hit =>
    obtain ⟨b, hb, hlongest⟩ := Option.bind_eq_some_iff.1 hfound
    obtain ⟨search, hsize, hpicked⟩ := picked_of_longest? hb hlongest
    rw [ruleAt?_eq_some_iff.2 hpicked, Option.map_some, hsize]
  | none =>
    rw [eq_comm, Option.map_eq_none_iff, Option.eq_none_iff_forall_ne_some]
    intro rule hrule
    obtain ⟨⟨hne, hbegins⟩, hfirst, -⟩ := ruleAt?_eq_some_iff.1 hrule
    obtain ⟨b, hb, hlookup⟩ := exists_bucket? hbegins hne hfirst
    rw [hb, Option.bind_some, Bucket.longest?, List.findSome?_eq_none_iff] at hfound
    have hhit := Bucket.hit?_eq_some_iff.2 ⟨rfl, rule.1, hbegins, rfl, hlookup⟩
    rw [hfound _ (size_mem_sizes hlookup)] at hhit
    cases hhit

/-- Without a bucket for its first byte, no rule is taken at a character. -/
theorem ruleAt?_eq_none_of_bucket? {c : Char}
    (h : (ofRules rules).bucket? (firstByte c) = none) : ruleAt? rules (c :: t) = none := by
  rw [← Option.map_eq_none_iff, ← longest?_ofRules, h, Option.bind_none]

end SearchIndex

/-! ### Searching through an index -/

/-- Only the first byte of a character is a first byte, so that none is wanted within. -/
theorem findIdx?_utf8EncodeChar {wanted : UInt8 → Bool}
    (h : ∀ byte, wanted byte = true → byte.IsUTF8FirstByte) (c : Char) :
    (String.utf8EncodeChar c).findIdx? wanted = if wanted (firstByte c) then some 0 else none := by
  have hlength := List.length_pos_iff.2 (String.utf8EncodeChar_ne_nil (c := c))
  have hhead : (String.utf8EncodeChar c)[0] = firstByte c := (List.head_eq_getElem _).symm
  split
  · rename_i hfirst
    rw [List.findIdx?_eq_some_iff_getElem]
    exact ⟨hlength, hhead ▸ hfirst, nofun⟩
  · rename_i hfirst
    refine List.findIdx?_eq_none_iff.2 fun byte hmem ↦ Bool.eq_false_iff.2 fun hwanted ↦ ?_
    obtain ⟨i, hi, rfl⟩ := List.getElem_of_mem hmem
    have hstart := h _ hwanted
    rw [UInt8.isUTF8FirstByte_getElem_utf8EncodeChar] at hstart
    subst hstart
    rw [hhead] at hwanted
    exact hfirst hwanted

/-- **A byte that begins characters is found where a character begins.** -/
theorem findByte?_cases {wanted : UInt8 → Bool}
    (h : ∀ byte, wanted byte = true → byte.IsUTF8FirstByte) (t : Text) :
    (t.findByte? wanted = none ∧ ∀ c ∈ t, wanted (firstByte c) = false) ∨
      ∃ before next rest, t = before ++ next :: rest ∧ t.findByte? wanted = some (size before) ∧
        ∀ c ∈ before, wanted (firstByte c) = false := by
  induction t with
  | nil => exact .inl ⟨rfl, nofun⟩
  | cons c t ih =>
    rw [findByte?, findIdx?_utf8EncodeChar h]
    cases hc : wanted (firstByte c) with
    | true => exact .inr ⟨[], c, t, rfl, rfl, nofun⟩
    | false =>
      rcases ih with ⟨hnone, hall⟩ | ⟨before, next, rest, rfl, hfound, hall⟩
      · refine .inl ⟨?_, List.forall_mem_cons.2 ⟨hc, hall⟩⟩
        rw [hnone]
        rfl
      · refine .inr ⟨c :: before, next, rest, rfl, ?_, List.forall_mem_cons.2 ⟨hc, hall⟩⟩
        rw [hfound]
        rfl

namespace SearchIndex

theorem isUTF8FirstByte_of_bucket? {index : SearchIndex} {byte : UInt8}
    (h : (index.bucket? byte).isSome = true) : byte.IsUTF8FirstByte := by
  obtain ⟨b, hb⟩ := Option.isSome_iff_exists.1 h
  obtain ⟨before, after, hsplit, -⟩ := List.lookup_eq_some_iff.1 hb
  exact index.begins (byte, b) (hsplit ▸ List.mem_append_right _ List.mem_cons_self)

/-- What is skipped is copied. -/
theorem replaceAll_append_of_bucket? {before : Text}
    (h : ∀ c ∈ before, ((ofRules rules).bucket? (firstByte c)).isSome = false) (t : Text) :
    replaceAll rules (before ++ t) = before ++ replaceAll rules t := by
  refine replaceAll_append_of_none fun suffix hsuffix hne ↦ ?_
  obtain ⟨c, suffix, rfl⟩ := List.exists_cons_of_ne_nil hne
  have hc := h c (hsuffix.subset List.mem_cons_self)
  exact ruleAt?_eq_none_of_bucket? (Option.isNone_iff_eq_none.1 (Option.isSome_eq_false_iff.1 hc))

/-- One round puts out what becomes of what it consumes. -/
theorem round?_ofRules (rules : List Rule) (t : Text) :
    ∃ out rest, (ofRules rules).round? t = some (out, rest) ∧
      replaceAll rules t = out ++ replaceAll rules rest := by
  rw [round?, skip?]
  have hstart (byte : UInt8) (h : ((ofRules rules).bucket? byte).isSome = true) :
      byte.IsUTF8FirstByte := isUTF8FirstByte_of_bucket? h
  rcases findByte?_cases hstart t with ⟨hnone, hall⟩ | ⟨before, next, rest, rfl, hfound, hall⟩
  · refine ⟨t, [], by rw [hnone], ?_⟩
    have h := replaceAll_append_of_bucket? hall []
    rwa [List.append_nil] at h
  · have hbefore : cutAt? (size before) (before ++ next :: rest) = some (before, next :: rest) :=
      cutAt?_eq_some_iff.2 ⟨rfl, rfl⟩
    rw [hfound, replaceAll_append_of_bucket? hall]
    simp only [hbefore, Option.bind_eq_bind, Option.bind_some, List.head?_cons, longest?_ofRules]
    cases hrule : ruleAt? rules (next :: rest) with
    | none =>
      have hcopied : cutAt? next.utf8Size (next :: rest) = some ([next], rest) :=
        cutAt?_eq_some_iff.2 ⟨rfl, rfl⟩
      refine ⟨before ++ [next], rest, by simp [hcopied], ?_⟩
      rw [replaceAll_cons_of_none hrule, List.append_assoc, List.singleton_append]
    | some rule =>
      obtain ⟨rest', hrest⟩ := (ruleAt?_eq_some_iff.1 hrule).isMatch.2
      have hread : cutAt? (size rule.1) (next :: rest) = some (rule.1, rest') :=
        cutAt?_eq_some_iff.2 ⟨hrest.symm, rfl⟩
      refine ⟨before ++ rule.2, rest', by simp [hread], ?_⟩
      rw [replaceAll_of_ruleAt? hrule, ← hrest, List.drop_left, List.append_assoc]

/-- **The search through the index has an answer**, the text that the pass puts out. -/
theorem replace?_ofRules (rules : List Rule) (t : Text) :
    (ofRules rules).replace? t = some (replaceAll rules t) := by
  induction hlen : t.length using Nat.strongRecOn generalizing t with
  | ind n ih =>
    rw [replace?]
    split
    · rename_i hnil
      rw [hnil, replaceAll_nil]
    · rename_i hne
      obtain ⟨out, rest, hround, hout⟩ := round?_ofRules rules t
      have hlt := hlen ▸ length_lt_of_round? hround hne
      split
      · rename_i hnone
        rw [hround] at hnone
        cases hnone
      · rename_i hsome
        rw [hround] at hsome
        cases hsome
        rw [ih _ hlt rest rfl, Option.map_some, hout]

end SearchIndex

/-- **A replacement is one pass over the original text.** The search through the index answers for
every text, with what the one pass puts out and with nothing else. Empty search texts are passed
over, of the rules with one search text the first one counts, and apart from that the order of the
rules does not matter. -/
theorem replacement_is_one_pass (rules : List Rule) (t : Text) :
    (∀ out, (SearchIndex.ofRules rules).replace? t = some out ↔ Rewrites rules t out) ∧
      (SearchIndex.ofRules rules).replace? t = some (replaceAll rules t) ∧
      (SearchIndex.ofRules (rules.filter (·.1 ≠ []))).replace? t =
        (SearchIndex.ofRules rules).replace? t ∧
      (∀ rules' : List Rule, (∀ search ≠ [], rules'.lookup search = rules.lookup search) →
        (SearchIndex.ofRules rules').replace? t = (SearchIndex.ofRules rules).replace? t) ∧
      ∀ rules' : List Rule, rules'.Perm rules → (rules.map (·.1)).Nodup →
        (SearchIndex.ofRules rules').replace? t = (SearchIndex.ofRules rules).replace? t := by
  simp only [SearchIndex.replace?_ofRules, Option.some.injEq]
  exact ⟨fun out ↦ replaceAll_eq_iff, trivial, replaceAll_filter rules t,
    fun rules' h ↦ replaceAll_congr h t, fun rules' hperm h ↦ replaceAll_perm hperm h t⟩

/-- Rules for letters that share their first byte, one of them with a search text that begins
another one. -/
def accents : List Rule :=
  [("ê".toList, "E".toList), ("".toList, "-".toList), ("ê!".toList, "é".toList),
    ("é".toList, "e".toList), ("e".toList, "x".toList)]

/-- The replacement `é` of `ê!` is not searched again, a second rule for `e` is not used, and the
rules may stand in the reverse order. -/
theorem replacement_of_accents : (SearchIndex.ofRules accents).replace? "éê!eê".toList =
      some "eéxE".toList ∧
    Rewrites accents "éê!eê".toList "eéxE".toList ∧
    (SearchIndex.ofRules (accents ++ [("e".toList, "y".toList)])).replace? "éê!eê".toList =
      some "eéxE".toList ∧
    (SearchIndex.ofRules accents.reverse).replace? "éê!eê".toList = some "eéxE".toList := by
  obtain ⟨hrewrites, hanswer, -, hcongr, hperm⟩ :=
    replacement_is_one_pass accents "éê!eê".toList
  have hout : replaceAll accents "éê!eê".toList = "eéxE".toList := by decide
  have hsecond : ∀ search ≠ [],
      (accents ++ [("e".toList, "y".toList)]).lookup search = accents.lookup search := by
    intro search _
    rw [List.lookup_append, Dict.lookup_cons]
    split
    · rename_i hsame
      subst hsame
      decide
    · exact Option.or_none
  rw [hout] at hanswer
  exact ⟨hanswer, (hrewrites _).1 hanswer, (hcongr _ hsecond).trans hanswer,
    (hperm _ accents.reverse_perm (by decide)).trans hanswer⟩

end TagTemplate.Text
