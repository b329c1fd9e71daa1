import Mathlib.Data.List.TakeWhile
import TagTemplate.Filter.Chain

/-!
# Filters read back

A chain of filters is written as `` :method=`argument` `` for each step, with the argument as it is:
nothing in it is escaped. So where an argument ends is decided by what stands behind a backtick
alone, and an argument may hold backticks, colons and whatever looks like the start of a filter, as
long as no backtick in it is followed by a colon that a method could follow (`Unbroken`). In
particular an argument may end in a backtick; but not in a backtick and a colon, since the closing
backtick behind the colon is the start of a method like any other character.

These conditions are exact. Chains of `Writable` steps read back as they are (`parse_written`), and
the steps that reading finds in any text are writable, also where it recovers from something that
does not fit (`writable_of_mem_parse`).
-/

namespace TagTemplate

/-! ### Steps as they are written -/

namespace FilterStep

/-- No backtick of the argument is followed by a colon and then by the end of the argument or by
a character other than a colon and an equals sign. -/
def Unbroken (argument : Text) : Prop :=
  ∀ before after, argument = before ++ Text.quoteMark :: ':' :: after →
    after.head? = some ':' ∨ after.head? = some '='

/-- The step behind a name. -/
def written (step : FilterStep) : Text :=
  ':' :: (step.method ++ '=' :: Text.quoteMark :: (step.argument ++ [Text.quoteMark]))

/-- A step that can be written as it is. -/
structure Writable (step : FilterStep) : Prop where
  method_ne_nil : step.method ≠ []
  no_colon : ':' ∉ step.method
  no_equals : '=' ∉ step.method
  unbroken : Unbroken step.argument

theorem unbroken_nil : Unbroken [] := by
  intro before after h
  simp at h

/-- An argument is unbroken when it is behind its first character and that character does not end
it. -/
theorem unbroken_cons_iff {c : Char} {argument : Text} :
    Unbroken (c :: argument) ↔
      (∀ after, c = Text.quoteMark → argument = ':' :: after →
        after.head? = some ':' ∨ after.head? = some '=') ∧ Unbroken argument := by
  constructor
  · intro h
    refine ⟨fun after hc hafter ↦ h [] after (by rw [hc, hafter]; rfl), fun before after hrest ↦ ?_⟩
    exact h (c :: before) after (by rw [hrest]; rfl)
  · rintro ⟨hfirst, hrest⟩ before after h
    rcases before with - | ⟨b, before⟩
    · obtain ⟨rfl, rfl⟩ := List.cons.inj h
      exact hfirst after rfl rfl
    · obtain ⟨rfl, rfl⟩ := List.cons.inj h
      exact hrest before after rfl

/-- Whether an argument is unbroken can be computed. -/
instance decidableUnbroken : (argument : Text) → Decidable (Unbroken argument)
  | [] => .isTrue unbroken_nil
  | [c] => .isTrue (unbroken_cons_iff.2 ⟨nofun, unbroken_nil⟩)
  | c :: c' :: argument =>
    haveI := decidableUnbroken (c' :: argument)
    decidable_of_iff
      ((c = Text.quoteMark → c' = ':' → argument.head? = some ':' ∨ argument.head? = some '=') ∧
        Unbroken (c' :: argument)) <| by
      rw [unbroken_cons_iff (c := c)]
      refine and_congr_left fun _ ↦ ⟨fun h after hc hafter ↦ ?_, fun h hc hc' ↦ ?_⟩
      · obtain ⟨rfl, rfl⟩ := List.cons.inj hafter
        exact h hc rfl
      · exact h argument hc (by rw [hc'])

/-- Whether a step is writable can be computed. -/
instance (step : FilterStep) : Decidable step.Writable :=
  decidable_of_iff
    (step.method ≠ [] ∧ ':' ∉ step.method ∧ '=' ∉ step.method ∧ Unbroken step.argument)
    ⟨fun ⟨method_ne_nil, no_colon, no_equals, unbroken⟩ ↦
      ⟨method_ne_nil, no_colon, no_equals, unbroken⟩,
    fun h ↦ ⟨h.method_ne_nil, h.no_colon, h.no_equals, h.unbroken⟩⟩

end FilterStep

namespace FilterChain

open FilterStep

/-- The chain behind a name: its steps, one behind the other. -/
def written (chain : FilterChain) : Text := chain.flatMap FilterStep.written

/-! ### Where an argument ends -/

/-- An argument ends at a colon only. -/
theorem endsArgument_cons_of_ne {c : Char} (h : c ≠ ':') (t : Text) :
    endsArgument (c :: t) = false := by
  unfold endsArgument
  split
  · contradiction
  · rename_i heq
    exact absurd (List.cons.inj heq).1 h
  · rfl

@[simp] theorem endsArgument_colon (c : Char) (t : Text) :
    endsArgument (':' :: c :: t) = inMethod c := rfl

/-- What is read as an argument is unbroken, and what follows it may follow an argument. -/
theorem argument?_spec {t argument rest : Text} (h : argument? t = some (argument, rest)) :
    t = argument ++ Text.quoteMark :: rest ∧ endsArgument rest = true ∧ Unbroken argument := by
  induction t generalizing argument with
  | nil => cases h
  | cons c t ih =>
    rw [argument?] at h
    split at h
    · rename_i hend
      obtain ⟨rfl, rfl⟩ : argument = [] ∧ t = rest := by simpa [eq_comm] using h
      exact ⟨by rw [hend.1]; rfl, hend.2, unbroken_nil⟩
    · rename_i hgoes
      obtain ⟨⟨argument', rest'⟩, hlater, heq⟩ := Option.map_eq_some_iff.1 h
      obtain ⟨rfl, rfl⟩ : c :: argument' = argument ∧ rest' = rest := by simpa using heq
      obtain ⟨rfl, hrest, hunbroken⟩ := ih hlater
      refine ⟨rfl, hrest, unbroken_cons_iff.2 ⟨fun after hc hafter ↦ ?_, hunbroken⟩⟩
      -- The backtick at the start did not end the argument, so no method follows the colon.
      have hopen : ¬endsArgument (':' :: (after ++ Text.quoteMark :: rest')) = true := by
        intro hends
        exact hgoes ⟨hc, by rw [hafter]; exact hends⟩
      rcases after with - | ⟨c', after⟩
      · exact absurd rfl hopen
      · have hc' : ¬inMethod c' = true := hopen
        simp only [inMethod, Bool.and_eq_true, decide_eq_true_eq, not_and_or, not_not] at hc'
        simpa using hc'

/-- An unbroken argument is read up to its closing backtick. -/
theorem argument?_append {argument rest : Text} (h : Unbroken argument)
    (hrest : endsArgument rest = true) :
    argument? (argument ++ Text.quoteMark :: rest) = some (argument, rest) := by
  induction argument with
  | nil => rw [List.nil_append, argument?, if_pos ⟨rfl, hrest⟩]
  | cons c argument ih =>
    obtain ⟨hfirst, hunbroken⟩ := unbroken_cons_iff.1 h
    have hgoes : ¬(c = Text.quoteMark ∧
        endsArgument (argument ++ Text.quoteMark :: rest) = true) := by
      rintro ⟨hc, hends⟩
      rcases argument with - | ⟨c', argument⟩
      · have hclosing := endsArgument_cons_of_ne (show Text.quoteMark ≠ ':' by decide) rest
        rw [List.nil_append, hclosing] at hends
        exact Bool.false_ne_true hends
      · obtain rfl | hne := eq_or_ne c' ':'
        · rcases argument with - | ⟨c'', argument⟩
          · rcases hfirst [] hc rfl with hnone | hnone <;> cases hnone
          · have hmethod : inMethod c'' = true := hends
            rcases hfirst (c'' :: argument) hc rfl with hc'' | hc'' <;>
              rw [Option.some.inj hc''] at hmethod <;> exact absurd hmethod (by decide)
        · rw [List.cons_append, endsArgument_cons_of_ne hne] at hends
          exact Bool.false_ne_true hends
    rw [List.cons_append, argument?, if_neg hgoes, ih hunbroken]
    rfl

/-! ### Reading what was written -/

/-- The characters of a method that can be written are read as parts of it. -/
theorem inMethod_of_writable {step : FilterStep} (h : step.Writable) {c : Char}
    (hc : c ∈ step.method) : inMethod c = true := by
  have hcolon : c ≠ ':' := fun heq ↦ h.no_colon (heq ▸ hc)
  have hequals : c ≠ '=' := fun heq ↦ h.no_equals (heq ▸ hc)
  simp [inMethod, hcolon, hequals]

/-- An argument may end in front of a chain, and in front of nothing. -/
theorem endsArgument_written {chain : FilterChain} (h : ∀ step ∈ chain, step.Writable) :
    endsArgument chain.written = true := by
  rcases chain with - | ⟨step, chain⟩
  · rfl
  · have hstep := h step List.mem_cons_self
    obtain ⟨c, method, hmethod⟩ := List.exists_cons_of_ne_nil hstep.method_ne_nil
    show endsArgument (step.written ++ written chain) = true
    rw [FilterStep.written, hmethod]
    show inMethod c = true
    exact inMethod_of_writable hstep (hmethod ▸ List.mem_cons_self)

/-- A written step is read as the first one, and reading goes on behind it. -/
theorem parse_written_append {step : FilterStep} (h : step.Writable) {rest : Text}
    (hrest : endsArgument rest = true) : parse (step.written ++ rest) = step :: parse rest := by
  let behind : Text := '=' :: Text.quoteMark :: (step.argument ++ Text.quoteMark :: rest)
  have hmethod : ∀ c ∈ step.method, inMethod c = true := fun c ↦ inMethod_of_writable h
  have htake : (step.method ++ behind).takeWhile inMethod = step.method := by
    rw [List.takeWhile_append_of_pos hmethod]
    exact List.append_nil _
  have hdrop : (step.method ++ behind).dropWhile inMethod = behind := by
    rw [List.dropWhile_append_of_pos hmethod]
    rfl
  have hargument : argumentAfter behind = (step.argument, rest) := by
    show argumentAfter ('=' :: '`' :: (step.argument ++ Text.quoteMark :: rest)) = _
    rw [argumentAfter, argument?_append h.unbroken hrest]
  have hwhole : step.written ++ rest = ':' :: (step.method ++ behind) := by
    simp [FilterStep.written, behind]
  rw [hwhole, parse]
  show (if ((step.method ++ behind).takeWhile inMethod).isEmpty = true then _ else
    FilterStep.mk ((step.method ++ behind).takeWhile inMethod)
        (argumentAfter ((step.method ++ behind).dropWhile inMethod)).1 ::
      parse (argumentAfter ((step.method ++ behind).dropWhile inMethod)).2) = _
  rw [htake, hdrop, hargument, if_neg (by simpa using h.method_ne_nil)]

/-- **A written chain reads back.** -/
theorem parse_written {chain : FilterChain} (h : ∀ step ∈ chain, step.Writable) :
    parse chain.written = chain := by
  induction chain with
  | nil => rw [written, List.flatMap_nil, parse]; rfl
  | cons step chain ih =>
    rw [List.forall_mem_cons] at h
    rw [written, List.flatMap_cons, ← written,
      parse_written_append h.1 (endsArgument_written h.2), ih h.2]

/-- A name in front of a written chain is split off. -/
theorem splitName_written {chain : FilterChain} (h : ∀ step ∈ chain, step.Writable) {name : Text}
    (hne : name ≠ []) (hcolon : ':' ∉ name) :
    splitName (name ++ chain.written) = (name, chain) := by
  have hname : ∀ c ∈ name, (c ≠ ':' : Bool) = true := by
    intro c hc
    exact decide_eq_true fun heq ↦ hcolon (heq ▸ hc)
  have hstop : chain.written.takeWhile (· ≠ ':') = [] ∧
      chain.written.dropWhile (· ≠ ':') = chain.written := by
    rcases chain with - | ⟨step, chain⟩
    · exact ⟨rfl, rfl⟩
    · exact ⟨rfl, rfl⟩
  have hbare : (name ++ chain.written).takeWhile (· ≠ ':') = name := by
    rw [List.takeWhile_append_of_pos hname, hstop.1, List.append_nil]
  have hsuffix : (name ++ chain.written).dropWhile (· ≠ ':') = chain.written := by
    rw [List.dropWhile_append_of_pos hname, hstop.2]
  rw [splitName, hbare, hsuffix, if_neg (by simpa using hne), parse_written h]

/-! ### What reading finds can be written -/

/-- Nothing in an argument that was read would have ended it before. -/
theorem unbroken_argumentAfter (t : Text) : Unbroken (argumentAfter t).1 := by
  unfold argumentAfter
  split
  · split
    · rename_i hargument
      exact (argument?_spec hargument).2.2
    · exact unbroken_nil
  · exact unbroken_nil

/-- **The steps that are read in any text are writable.** -/
theorem writable_of_mem_parse {t : Text} {step : FilterStep} (h : step ∈ parse t) :
    step.Writable := by
  fun_induction parse t with
  | case1 => cases h
  | case2 t c rest _ _ _ ih => exact ih h
  | case3 t c rest _ method hmethod next ih =>
    rcases List.mem_cons.1 h with rfl | hlater
    · have hin : ∀ c ∈ method, inMethod c = true := fun c hc ↦ List.mem_takeWhile_imp hc
      refine ⟨by simpa using hmethod, fun hc ↦ ?_, fun hc ↦ ?_, unbroken_argumentAfter _⟩
      · exact absurd (hin ':' hc) (by decide)
      · exact absurd (hin '=' hc) (by decide)
    · exact ih hlater

/-- **Filters read back.** Writing the steps of a chain and reading them gives the chain back, also
behind a name, whenever the steps are writable; and the steps that are read in any text are
writable, so that writing them and reading them again changes nothing. -/
theorem filters_read_back :
    (∀ chain : FilterChain, (∀ step ∈ chain, step.Writable) →
      parse chain.written = chain ∧
        ∀ name, name ≠ [] → ':' ∉ name → splitName (name ++ chain.written) = (name, chain)) ∧
    ∀ t, (∀ step ∈ parse t, step.Writable) ∧ parse (written (parse t)) = parse t := by
  refine ⟨fun chain h ↦ ⟨parse_written h, fun name ↦ splitName_written h⟩, fun t ↦ ?_⟩
  have hsteps : ∀ step ∈ parse t, step.Writable := fun step ↦ writable_of_mem_parse
  exact ⟨hsteps, parse_written hsteps⟩

/-- Arguments with backticks at their ends, with a colon and a filter inside, and with nothing. -/
def thorny : FilterChain :=
  [⟨"is".toList, "`a`:=`b:c``".toList⟩, ⟨"` then".toList, []⟩, ⟨"else".toList, "`::".toList⟩]

/-- The steps are read back, also from behind a value that ends with a backtick. -/
theorem thorny_reads_back :
    (∀ step ∈ thorny, step.Writable) ∧ "v`".toList ≠ [] ∧ ':' ∉ "v`".toList ∧
      parse thorny.written = thorny ∧ splitName ("v`".toList ++ thorny.written) =
        ("v`".toList, thorny) := by
  have hsteps : ∀ step ∈ thorny, step.Writable := by decide
  have hname : "v`".toList ≠ [] ∧ ':' ∉ "v`".toList := by decide
  obtain ⟨hparse, hsplit⟩ := filters_read_back.1 thorny hsteps
  exact ⟨hsteps, hname.1, hname.2, hparse, hsplit _ hname.1 hname.2⟩

end FilterChain

end TagTemplate
