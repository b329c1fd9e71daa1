import TagTemplate.Text.Replacement

/-!
# What a replacement replaces

The rule that `Text.ruleAt?` picks is described by what it is and not by how the rules are searched:
it matches, and no rule that matches reads more (`ruleAt?_spec`). With that, `Text.replaceAll` is
described by three equations: a match is replaced as a whole (`replaceAll_of_ruleAt?`), a stretch in
which nothing matches is copied (`replaceAll_append_of_none`), and rules that put every text in its
own place change nothing (`replaceAll_eq_self`).
-/

namespace TagTemplate.Text

variable {rules : List Rule}

/-- The rule reads something at the start of the text. -/
def Matches (rule : Rule) (t : Text) : Prop := rule.1 ≠ [] ∧ rule.1 <+: t

theorem matches_iff {rule : Rule} {t : Text} :
    (!rule.1.isEmpty && t.startsWith rule.1) = true ↔ Matches rule t := by
  simp [Matches, startsWith]

/-! ### The rule that is picked -/

/-- No rule is taken exactly where none matches. -/
theorem ruleAt?_eq_none_iff {t : Text} :
    ruleAt? rules t = none ↔ ∀ rule ∈ rules, ¬Matches rule t := by
  induction rules with
  | nil => simp [ruleAt?]
  | cons rule rules ih =>
    rw [ruleAt?, List.forall_mem_cons, ← ih]
    by_cases hmatch : Matches rule t
    · rw [if_pos (matches_iff.2 hmatch)]
      cases ruleAt? rules t with
      | none => simp [longer, hmatch]
      | some second =>
        simp only [longer]
        split <;> simp
    · rw [if_neg (mt matches_iff.1 hmatch)]
      simp [longer, hmatch]

/-- **The rule that is picked** is one of the rules, it matches, and no rule that matches reads
more. -/
theorem ruleAt?_spec {t : Text} {rule : Rule} (h : ruleAt? rules t = some rule) :
    rule ∈ rules ∧ Matches rule t ∧
      ∀ other ∈ rules, Matches other t → other.1.length ≤ rule.1.length := by
  induction rules generalizing rule with
  | nil => cases h
  | cons first rules ih =>
    rw [ruleAt?] at h
    by_cases hmatch : Matches first t
    · -- The first rule matches; it gives way to a longer one only.
      rw [if_pos (matches_iff.2 hmatch)] at h
      cases hrest : ruleAt? rules t with
      | none =>
        rw [hrest] at h
        cases h
        refine ⟨List.mem_cons_self, hmatch, fun other hother hother' ↦ ?_⟩
        rcases List.mem_cons.1 hother with rfl | hmem
        · exact Nat.le_refl _
        · exact absurd hother' (ruleAt?_eq_none_iff.1 hrest other hmem)
      | some second =>
        obtain ⟨hmem, hsecond, hlongest⟩ := ih hrest
        simp only [hrest, longer] at h
        split at h
        · rename_i hlt
          cases h
          refine ⟨List.mem_cons_of_mem _ hmem, hsecond, fun other hother hother' ↦ ?_⟩
          rcases List.mem_cons.1 hother with rfl | hother
          · omega
          · exact hlongest other hother hother'
        · rename_i hle
          cases h
          refine ⟨List.mem_cons_self, hmatch, fun other hother hother' ↦ ?_⟩
          rcases List.mem_cons.1 hother with rfl | hother
          · exact Nat.le_refl _
          · exact Nat.le_trans (hlongest other hother hother') (by omega)
    · -- The first rule does not match.
      rw [if_neg (mt matches_iff.1 hmatch)] at h
      obtain ⟨hmem, hrule, hlongest⟩ := ih h
      refine ⟨List.mem_cons_of_mem _ hmem, hrule, fun other hother hother' ↦ ?_⟩
      rcases List.mem_cons.1 hother with rfl | hother
      · exact absurd hother' hmatch
      · exact hlongest other hother hother'

/-! ### What becomes of the text -/

theorem replaceAll_cons_of_none {c : Char} {t : Text} (h : ruleAt? rules (c :: t) = none) :
    replaceAll rules (c :: t) = c :: replaceAll rules t := by
  rw [replaceAll, replaceFrom, h]
  rfl

/-- A match is replaced, and the search goes on behind it. -/
theorem replaceAll_of_ruleAt? {t : Text} {rule : Rule} (h : ruleAt? rules t = some rule) :
    replaceAll rules t = rule.2 ++ replaceAll rules (t.drop rule.1.length) := by
  obtain ⟨search, replacement⟩ := rule
  obtain ⟨-, ⟨hne, hbegins⟩, -⟩ := ruleAt?_spec h
  have hpos := List.length_pos_iff.2 hne
  cases t with
  | nil => exact absurd (List.prefix_nil.1 hbegins) hne
  | cons c t =>
    rw [replaceAll, replaceFrom, h]
    dsimp only at hpos ⊢
    rw [replaceFrom_eq_drop, ← List.drop_succ_cons,
      show search.length - 1 + 1 = search.length by omega]

/-- A stretch in which no rule matches is copied, also where it touches what follows. -/
theorem replaceAll_append_of_none {a t : Text}
    (h : ∀ b, b <:+ a → b ≠ [] → ruleAt? rules (b ++ t) = none) :
    replaceAll rules (a ++ t) = a ++ replaceAll rules t := by
  induction a with
  | nil => rfl
  | cons c a ih =>
    have hhere : ruleAt? rules (c :: (a ++ t)) = none :=
      h (c :: a) (List.suffix_refl _) (List.cons_ne_nil _ _)
    rw [List.cons_append, replaceAll_cons_of_none hhere, List.cons_append,
      ih fun b hb ↦ h b (hb.trans (List.suffix_cons c a))]

/-- Rules that put every text in its own place change nothing. -/
theorem replaceAll_eq_self (h : ∀ rule ∈ rules, rule.2 = rule.1) (t : Text) :
    replaceAll rules t = t := by
  induction hlen : t.length using Nat.strongRecOn generalizing t with
  | ind n ih =>
    cases t with
    | nil => rfl
    | cons c t =>
      cases hrule : ruleAt? rules (c :: t) with
      | none =>
        rw [replaceAll_cons_of_none hrule, ih t.length (by rw [← hlen]; simp) t rfl]
      | some rule =>
        obtain ⟨hmem, ⟨hne, hbegins⟩, -⟩ := ruleAt?_spec hrule
        have hpos := List.length_pos_iff.2 hne
        rw [replaceAll_of_ruleAt? hrule, h rule hmem,
          ih _ (by rw [← hlen, List.length_drop, List.length_cons]; omega) _ rfl]
        exact drop_of_startsWith (List.isPrefixOf_iff_prefix.2 hbegins)

end TagTemplate.Text
