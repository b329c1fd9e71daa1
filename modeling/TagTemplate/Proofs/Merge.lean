import TagTemplate.Proofs.Replacement
import TagTemplate.Proofs.TagScan

/-!
# Merging is substitution

A pass puts the outputs of tags in place by text and not by position: each tag, as it stands, is a
rule, and the rules are applied to the whole content at once. Tags can begin alike, a tag can stand
inside of another one, and unbalanced markup ends a tag at different places in different texts; so a
rule could read too much, too little, or the wrong thing.

With delimiters that cannot overlap it does not (`replaceAll_scan`). In what stands before a tag no
rule matches, because it holds no opening. At a tag its own rule matches, and any rule that matches
there was read off a text that begins like this one, where the scan would have gone at least as far:
so the longest rule is the tag's own. Behind the last tag no rule matches, because there is no
closing left.
-/

namespace TagTemplate

/-- What stands in the place of a piece, once the outputs of the tags are known. -/
def Piece.filled (output : Text → Text) : Piece → Text
  | plain t => t
  | tag inner => output inner

@[simp] theorem Piece.filled_plain (output : Text → Text) (t : Text) :
    (plain t).filled output = t := rfl

@[simp] theorem Piece.filled_tag (output : Text → Text) (inner : Text) :
    (tag inner).filled output = output inner := rfl

namespace Delimiters

variable {d : Delimiters} {output : Text → Text} {rules : List Text.Rule}

/-- The inner text of a tag that was read off some text. -/
def Reads (d : Delimiters) (inner : Text) : Prop :=
  ∃ (inside : Text) (e : TagEnd), d.close? 0 0 0 inside = some e ∧ e.inner = inner

/-- Rules that replace tags by their outputs, and nothing but tags. -/
def Merges (d : Delimiters) (output : Text → Text) (rules : List Text.Rule) : Prop :=
  ∀ rule ∈ rules, ∃ inner, d.Reads inner ∧ (d.wrap inner, output inner) = rule

/-- The walk reads each of its tags to the end, by induction on the scan. -/
theorem Separate.reads_of_mem_tags (hd : d.Separate) {inner content : Text}
    (h : inner ∈ d.tags content) : d.Reads inner := by
  rw [tags] at h
  induction content using hd.scan_induction with
  | tagless t ht => cases h
  | tag before inside e hbefore hclose ih =>
    rw [Piece.filterMap_inner?_plain, Piece.filterMap_inner?_tag] at h
    rcases List.mem_cons.1 h with rfl | h
    · exact ⟨inside, e, hclose, rfl⟩
    · exact ih h

/-! ### Where a rule matches -/

/-- A rule that matches reads an opening first, and a closing behind it. -/
theorem Merges.exists_of_matches (h : d.Merges output rules) {rule : Text.Rule} {t : Text}
    (hmem : rule ∈ rules) (hmatch : Text.Matches rule t) :
    ∃ inner r, d.Reads inner ∧ (d.wrap inner, output inner) = rule ∧
      t = d.opening ++ (inner ++ (d.closing ++ r)) := by
  obtain ⟨inner, hreads, rfl⟩ := h rule hmem
  obtain ⟨r, hr⟩ := hmatch.2
  exact ⟨inner, r, hreads, rfl, by rw [← hr]; simp [wrap]⟩

/-- Where there is no opening, no rule matches. -/
theorem Merges.ruleAt?_of_not_opening (h : d.Merges output rules) {t : Text}
    (ht : ¬d.opening <+: t) : Text.ruleAt? rules t = none := by
  refine Text.ruleAt?_eq_none_iff.2 fun rule hmem hmatch ↦ ?_
  obtain ⟨inner, r, -, -, rfl⟩ := h.exists_of_matches hmem hmatch
  exact ht (List.prefix_append _ _)

/-- In a text without tags, no rule matches. -/
theorem Merges.ruleAt?_of_tagless (h : d.Merges output rules) {t b : Text} (ht : d.Tagless t)
    (hb : b <:+ t) : Text.ruleAt? rules b = none := by
  refine Text.ruleAt?_eq_none_iff.2 fun rule hmem hmatch ↦ ?_
  obtain ⟨inner, r, -, -, rfl⟩ := h.exists_of_matches hmem hmatch
  obtain ⟨before, hbefore⟩ := hb
  exact ht before _ hbefore.symm ⟨inner, r, by simp⟩

/-- **At a tag its own rule is picked**: any other that matches reads less. -/
theorem Separate.ruleAt?_tag (hd : d.Separate) (h : d.Merges output rules) {inside : Text}
    {e : TagEnd} (hclose : d.close? 0 0 0 inside = some e)
    (hmem : (d.wrap e.inner, output e.inner) ∈ rules) :
    Text.ruleAt? rules (d.opening ++ inside) = some (d.wrap e.inner, output e.inner) := by
  have hinside := eq_of_close? hclose
  have hown : Text.Matches (d.wrap e.inner, output e.inner) (d.opening ++ inside) :=
    ⟨by simp [wrap, hd.opening_ne_nil], e.rest, by rw [hinside]; simp [wrap]⟩
  cases hrule : Text.ruleAt? rules (d.opening ++ inside) with
  | none => exact absurd hown (Text.ruleAt?_eq_none_iff.1 hrule _ hmem)
  | some rule =>
    obtain ⟨hrulemem, hmatch, hlongest⟩ := Text.ruleAt?_spec hrule
    obtain ⟨inner, r, ⟨inside', e', hclose', rfl⟩, rfl, heq⟩ :=
      h.exists_of_matches hrulemem hmatch
    have hr : inside = e'.inner ++ (d.closing ++ r) := List.append_cancel_left heq
    -- The rule was read off a text that begins like this one, so it is no longer than the tag.
    have hle : e'.inner.length ≤ e.inner.length := by
      obtain ⟨e'', hclose'', hle⟩ := hd.close?_append hclose' r
      rw [← hr, hclose] at hclose''
      cases hclose''
      exact hle
    have hge : e.inner.length ≤ e'.inner.length := by
      have hlen := hlongest _ hmem hown
      simp only [wrap, List.length_append] at hlen
      omega
    have hsame : e'.inner = e.inner := by
      rw [hinside, List.append_assoc] at hr
      exact (List.append_inj_left hr (Nat.le_antisymm hge hle)).symm
    rw [hsame]

/-- **Merging is substitution.** Rules that replace tags by their outputs, among them those of the
tags of a text, replace these tags where they stand in it and leave the rest alone. -/
theorem Separate.replaceAll_scan (hd : d.Separate) (h : d.Merges output rules) {t : Text}
    (hall : ∀ inner ∈ d.tags t, (d.wrap inner, output inner) ∈ rules) :
    t.replaceAll rules = (d.scan t).flatMap (Piece.filled output) := by
  rw [tags] at hall
  induction t using hd.scan_induction with
  | tagless t ht =>
    have hnone (b : Text) (hb : b <:+ t) : Text.ruleAt? rules (b ++ []) = none := by
      rw [List.append_nil]
      exact h.ruleAt?_of_tagless ht hb
    have hcopy : Text.replaceAll rules (t ++ []) = t ++ Text.replaceAll rules [] :=
      Text.replaceAll_append_of_none fun b hb _ ↦ hnone b hb
    simpa using hcopy
  | tag before inside e hbefore hclose ih =>
    rw [Piece.filterMap_inner?_plain, Piece.filterMap_inner?_tag, List.forall_mem_cons] at hall
    have hbehind : (d.opening ++ inside).drop (d.wrap e.inner).length = e.rest := by
      rw [eq_of_close? hclose, ← List.append_assoc, ← List.append_assoc]
      exact List.drop_left
    rw [Text.replaceAll_append_of_none fun b hb hne ↦ h.ruleAt?_of_not_opening (hbefore b hb hne),
      Text.replaceAll_of_ruleAt? (hd.ruleAt?_tag h hclose hall.1)]
    simp only [hbehind, ih hall.2, List.flatMap_cons, Piece.filled_plain, Piece.filled_tag]

end Delimiters

end TagTemplate
