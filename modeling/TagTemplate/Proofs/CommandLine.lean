import Mathlib.Data.List.Forall2
import TagTemplate.Proofs.FlatContent
import TagTemplate.Site.CommandLine

/-!
# Reading the command line

Single values are given by `--set` and a text of the form `KEY=VALUE`, which is the argument behind
it or is joined to it by `=`. What arguments give can be told without reading their other options:
no argument that looks like an option is ever taken for a value, so wherever `--set` stands in
arguments that are accepted, up to the mark `--`, it is the option. `setTexts` lists the texts that
are given in this way, and `Assigns` says what one of them assigns.

The reader takes one argument after the other, and may hold an option that still lacks its value.
What it holds behind one argument is told by `readArgument?`; the texts that it takes for
assignments are those that are then no longer ahead of it (`gains_of_readArgument?`), and so it
takes all that are, by induction on the arguments (`gains_of_gather?`). The other direction is that
assignments are accepted: behind arguments that were read to the end the reader goes on as it would
alone (`gather?_append`), and arguments that only assign change nothing but the assignments
(`Gathered.exists_gather?_setArguments`).
-/

namespace TagTemplate

namespace Text

/-- A text is cut at the first of its characters that is the mark. -/
theorem cut?_singleton_eq_some_iff {c : Char} {t before behind : Text} :
    cut? [c] t = some (before, behind) ↔ t = before ++ c :: behind ∧ c ∉ before := by
  constructor
  · intro h
    refine ⟨by rw [eq_append_of_cut? h, List.append_assoc, List.singleton_append], ?_⟩
    induction t generalizing before with
    | nil => cases h
    | cons x t ih =>
      rw [cut?] at h
      split at h
      · cases h
        exact List.not_mem_nil
      · rename_i hstart
        obtain ⟨⟨before', behind'⟩, hcut, heq⟩ := Option.map_eq_some_iff.1 h
        cases heq
        rw [List.mem_cons, not_or]
        refine ⟨fun hx ↦ hstart ?_, ih hcut⟩
        rw [hx]
        exact startsWith_iff.2 ⟨t, rfl⟩
  · rintro ⟨rfl, h⟩
    refine cut?_append_of_notMem (List.cons_ne_nil c []) (fun x hx hmem ↦ ?_) behind
    exact h (List.mem_singleton.1 hmem ▸ hx)

end Text

/-! ### The option -/

/-- Assignments have one long name. -/
theorem Flag.ofName?_eq_assign_iff {name : Text} :
    Flag.ofName? name = some .assign ↔ name = "set".toList := by
  constructor
  · intro h
    obtain ⟨⟨long, flag⟩, hmem, hname⟩ := List.exists_of_findSome?_eq_some h
    dsimp only at hname
    split at hname
    · rename_i hlong
      cases hname
      simp only [List.mem_cons, Prod.mk.injEq, reduceCtorEq, and_false, and_true, List.not_mem_nil,
        or_false, false_or] at hmem
      rw [← hlong, hmem]
    · cases hname
  · rintro rfl
    rfl

/-- The text gives the value to the key: the key stands, maybe among blanks, before the first `=`,
and all behind that is the value. -/
def Assigns (raw : Text) (pair : Text × Text) : Prop :=
  ∃ written, raw = written ++ '=' :: pair.2 ∧ '=' ∉ written ∧ pair.1 = written.trim ∧ pair.1 ≠ []

/-- What the reader takes for an assignment is one, and the other way round. -/
theorem assignment?_eq_some_iff {raw : Text} {pair : Text × Text} :
    Gathered.assignment? raw = some pair ↔ Assigns raw pair := by
  obtain ⟨key, value⟩ := pair
  constructor
  · intro h
    obtain ⟨⟨written, value'⟩, hcut, h⟩ := Option.bind_eq_some_iff.1 h
    obtain ⟨hraw, hwritten⟩ := Text.cut?_singleton_eq_some_iff.1 hcut
    dsimp only at h
    split at h
    · cases h
    · rename_i hne
      cases h
      exact ⟨written, hraw, hwritten, rfl, fun hnil ↦ hne (List.isEmpty_iff.2 hnil)⟩
  · rintro ⟨written, rfl, hwritten, rfl, hne⟩
    have hcut : Text.cut? ['='] (written ++ '=' :: value) = some (written, value) :=
      Text.cut?_singleton_eq_some_iff.2 ⟨rfl, hwritten⟩
    have hempty : ¬written.trim.isEmpty = true := fun h ↦ hne (List.isEmpty_iff.1 h)
    rw [Gathered.assignment?, hcut]
    exact if_neg hempty

/-- A text assigns one value to one key. -/
theorem rightUnique_assigns : Relator.RightUnique Assigns := fun _ _ _ h h' ↦
  Option.some.inj ((assignment?_eq_some_iff.2 h).symm.trans (assignment?_eq_some_iff.2 h'))

/-- The option for assignments holds no text, or the one that is joined to it. -/
theorem optionOf?_eq_assign_iff {argument : Text} {held : Option Text} :
    optionOf? argument = some (.assign, held) ↔
      (argument = "--set".toList ∧ held = none) ∨
        ∃ raw, argument = "--set=".toList ++ raw ∧ held = some raw := by
  constructor
  · intro h
    rw [optionOf?.eq_def] at h
    split at h
    · -- A long name, with its value or without one.
      rename_i t
      split at h
      · rename_i name value hcut
        obtain ⟨rfl, -⟩ := Text.cut?_singleton_eq_some_iff.1 hcut
        obtain ⟨flag, hflag, heq⟩ := Option.map_eq_some_iff.1 h
        cases heq
        rw [Flag.ofName?_eq_assign_iff.1 hflag]
        exact .inr ⟨value, rfl, rfl⟩
      · -- No value is joined to the name.
        obtain ⟨flag, hflag, heq⟩ := Option.map_eq_some_iff.1 h
        cases heq
        rw [Flag.ofName?_eq_assign_iff.1 hflag]
        exact .inl ⟨rfl, rfl⟩
    · -- No letter stands for assignments.
      obtain ⟨flag, hflag, heq⟩ := Option.map_eq_some_iff.1 h
      have hassign : flag = .assign := by split at heq <;> exact (Prod.mk.inj heq).1
      rw [hassign, Flag.ofLetter?.eq_def] at hflag
      split at hflag <;> cases hflag
    · cases h
  · rintro (⟨rfl, rfl⟩ | ⟨raw, rfl, rfl⟩)
    · rfl
    · have hcut : Text.cut? ['='] ("set".toList ++ '=' :: raw) = some ("set".toList, raw) :=
        Text.cut?_singleton_eq_some_iff.2 ⟨rfl, by decide⟩
      show (match Text.cut? ['='] ("set".toList ++ '=' :: raw) with | _ => _) = _
      rw [hcut]
      rfl

/-- The texts that the arguments give for `--set`, in order. Behind `--` there are none. -/
def setTexts : List Text → List Text
  | [] => []
  | argument :: arguments =>
    if argument = "--".toList then []
    else if argument = "--set".toList then arguments.head?.toList ++ setTexts arguments
    else (argument.after? "--set=".toList).toList ++ setTexts arguments

/-- An argument that is no option gives nothing by itself. -/
theorem setTexts_cons_of_not_isOption {argument : Text} (h : isOption argument = false)
    (arguments : List Text) : setTexts (argument :: arguments) = setTexts arguments := by
  have hnot {t : Text} (ht : isOption t = true) : argument ≠ t := by
    rintro rfl
    rw [h] at ht
    cases ht
  have hafter : argument.after? "--set=".toList = none :=
    Text.after?_eq_none_iff.2 fun _ hrest ↦ hnot rfl hrest
  rw [setTexts, if_neg (hnot rfl), if_neg (hnot rfl), hafter]
  rfl

/-- The text that an option gives for `--set`, when its value is known. -/
def Flag.setText (flag : Flag) (value : Option Text) : List Text :=
  if flag = .assign then value.toList else []

/-- An option gives the value that it holds, or else the argument behind it. -/
theorem setTexts_cons_of_optionOf? {argument : Text} {flag : Flag} {held : Option Text}
    (h : optionOf? argument = some (flag, held)) (arguments : List Text) :
    setTexts (argument :: arguments) =
      flag.setText (held.or arguments.head?) ++ setTexts arguments := by
  have hmark : argument ≠ "--".toList := by
    rintro rfl
    cases h
  rw [setTexts, if_neg hmark]
  by_cases hflag : flag = .assign
  · rw [Flag.setText, if_pos hflag]
    obtain ⟨rfl, rfl⟩ | ⟨raw, rfl, rfl⟩ := optionOf?_eq_assign_iff.1 (hflag ▸ h)
    · rw [if_pos rfl]
      rfl
    · have hne : "--set=".toList ++ raw ≠ "--set".toList := nofun
      rw [if_neg hne, Text.after?_append]
      rfl
  · have hnot {held' : Option Text} (h' : optionOf? argument = some (.assign, held')) : False :=
      hflag (Prod.mk.inj (Option.some.inj (h.symm.trans h'))).1
    have hset : argument ≠ "--set".toList := fun heq ↦
      hnot (optionOf?_eq_assign_iff.2 (.inl ⟨heq, rfl⟩))
    have hafter : argument.after? "--set=".toList = none :=
      Text.after?_eq_none_iff.2 fun rest hrest ↦
        hnot (optionOf?_eq_assign_iff.2 (.inr ⟨rest, hrest, rfl⟩))
    rw [Flag.setText, if_neg hflag, if_neg hset, hafter]
    rfl

/-! ### What is taken -/

namespace Gathered

variable {g g' g₁ : Gathered} {flag : Flag} {value : Text}

/-- A value that is taken is one for its option, and stands behind those that were taken before. -/
theorem eq_of_take? (h : g.take? flag value = some g') :
    isValueOf flag value = true ∧ g' = { g with values := g.values ++ [(flag, value)] } := by
  rw [take?] at h
  split at h
  · rename_i hvalue
    exact ⟨hvalue.1, (Option.some.inj h).symm⟩
  · cases h

theorem eq_of_takeTemplate? {template : Text} (h : g.takeTemplate? template = some g') :
    g' = { g with template := some template } := by
  rw [takeTemplate?] at h
  split at h
  · cases h
  · exact (Option.some.inj h).symm

/-- One value more is one assignment more, if it is given for that option. -/
theorem assigned_concat (g : Gathered) (flag : Flag) (value : Text) :
    ({ g with values := g.values ++ [(flag, value)] } : Gathered).assigned =
      g.assigned ++ if flag = .assign then (assignment? value).toList else [] := by
  rw [assigned, List.filterMap_append, assigned]
  by_cases hflag : flag = .assign
  · cases hvalue : assignment? value <;> simp [hflag, hvalue]
  · simp [hflag]

/-- From one state of the reader to another, the texts were read as assignments. -/
def Gains (g g' : Gathered) (texts : List Text) : Prop :=
  ∃ pairs, g'.assigned = g.assigned ++ pairs ∧ List.Forall₂ Assigns texts pairs

theorem Gains.of_assigned_eq (h : g'.assigned = g.assigned) : g.Gains g' [] :=
  ⟨[], by rw [h, List.append_nil], .nil⟩

theorem Gains.trans {texts texts' : List Text} (h : g.Gains g₁ texts) (h' : g₁.Gains g' texts') :
    g.Gains g' (texts ++ texts') := by
  obtain ⟨pairs, hassigned, hpairs⟩ := h
  obtain ⟨pairs', hassigned', hpairs'⟩ := h'
  refine ⟨pairs ++ pairs', ?_, List.rel_append hpairs hpairs'⟩
  rw [hassigned', hassigned, List.append_assoc]

/-- The value of an option is taken for an assignment if the option is the one for them. -/
theorem gains_of_take? (h : g.take? flag value = some g') :
    g.Gains g' (flag.setText (some value)) := by
  obtain ⟨hvalue, rfl⟩ := eq_of_take? h
  refine ⟨_, assigned_concat g flag value, ?_⟩
  rw [Flag.setText]
  split
  · rename_i hflag
    subst hflag
    obtain ⟨pair, hpair⟩ := Option.isSome_iff_exists.1 hvalue
    rw [hpair]
    exact .cons (assignment?_eq_some_iff.1 hpair) .nil
  · exact .nil

theorem gains_of_takeTemplate? {template : Text} (h : g.takeTemplate? template = some g') :
    g.Gains g' [] :=
  .of_assigned_eq (by rw [eq_of_takeTemplate? h, assigned, assigned])

/-- Behind the mark `--` nothing is assigned, by induction on the templates there. -/
theorem gains_of_takeTemplates {templates : List Text}
    (h : templates.foldlM takeTemplate? g = some g') : g.Gains g' [] := by
  induction templates generalizing g with
  | nil => cases h; exact .of_assigned_eq rfl
  | cons template templates ih =>
    obtain ⟨g₁, htake, h⟩ := Option.bind_eq_some_iff.1 h
    exact (gains_of_takeTemplate? htake).trans (ih h)

end Gathered

/-! ### One argument after the other -/

section Gather

variable {g g' g₁ : Gathered} {argument : Text} {arguments : List Text}
  {pending pending₁ : Option Flag}

/-- What the reader holds behind an argument that is not the mark: what it has gathered, and the
option that still lacks its value. -/
def readArgument? (g : Gathered) (pending : Option Flag) (argument : Text) :
    Option (Gathered × Option Flag) :=
  match pending with
  | some flag => if isOption argument then none else (g.take? flag argument).map (·, none)
  | none =>
    if isOption argument then
      (optionOf? argument).bind fun
        | (flag, some value) => (g.take? flag value).map (·, none)
        | (flag, none) => some (g, some flag)
    else (g.takeTemplate? argument).map (·, none)

/-- The reader goes on behind an argument with what it then holds. -/
theorem gather?_cons (hmark : argument ≠ "--".toList) (g : Gathered) (pending : Option Flag)
    (arguments : List Text) :
    gather? g pending (argument :: arguments) =
      (readArgument? g pending argument).bind fun held ↦ gather? held.1 held.2 arguments := by
  cases pending with
  | some flag =>
    show (if isOption argument then none
      else (g.take? flag argument).bind (gather? · none arguments)) = _
    rw [readArgument?]
    split
    · rfl
    · rw [Option.bind_map]
      rfl
  | none =>
    show (if argument = "--".toList then _
      else if isOption argument then
        (optionOf? argument).bind fun
          | (flag, some value) => (g.take? flag value).bind (gather? · none arguments)
          | (flag, none) => gather? g (some flag) arguments
      else (g.takeTemplate? argument).bind (gather? · none arguments)) = _
    rw [if_neg hmark, readArgument?]
    split
    · cases optionOf? argument with
      | none => rfl
      | some option =>
        obtain ⟨flag, _ | value⟩ := option
        · rfl
        · show (g.take? flag value).bind _ = ((g.take? flag value).map _).bind _
          rw [Option.bind_map]
          rfl
    · rw [Option.bind_map]
      rfl

/-- The texts that the arguments ahead give for `--set`, with an option that lacks its value, or
without one. -/
def setTextsAhead (pending : Option Flag) (arguments : List Text) : List Text :=
  pending.elim [] (·.setText arguments.head?) ++ setTexts arguments

/-- One argument: the reader takes the texts for assignments that are no longer ahead of it. -/
theorem gains_of_readArgument? (h : readArgument? g pending argument = some (g₁, pending₁))
    (arguments : List Text) :
    ∃ texts, g.Gains g₁ texts ∧
      setTextsAhead pending (argument :: arguments) =
        texts ++ setTextsAhead pending₁ arguments := by
  rw [readArgument?.eq_def] at h
  split at h
  · split at h
    · cases h
    · -- The argument is the value of the option that waits for it.
      rename_i flag hoption
      obtain ⟨_, htake, heq⟩ := Option.map_eq_some_iff.1 h
      cases heq
      refine ⟨_, Gathered.gains_of_take? htake, ?_⟩
      rw [setTextsAhead, setTexts_cons_of_not_isOption (Bool.eq_false_iff.2 hoption)]
      rfl
  · split at h
    · -- The argument is an option, which holds its value or waits for the next argument.
      obtain ⟨⟨flag, held⟩, hflag, h⟩ := Option.bind_eq_some_iff.1 h
      have htexts := setTexts_cons_of_optionOf? hflag arguments
      cases held with
      | some value =>
        obtain ⟨_, htake, heq⟩ := Option.map_eq_some_iff.1 h
        cases heq
        exact ⟨_, Gathered.gains_of_take? htake, htexts⟩
      | none =>
        cases h
        exact ⟨[], .of_assigned_eq rfl, htexts⟩
    · -- The argument is the template.
      rename_i hoption
      obtain ⟨_, htake, heq⟩ := Option.map_eq_some_iff.1 h
      cases heq
      refine ⟨[], Gathered.gains_of_takeTemplate? htake, ?_⟩
      exact setTexts_cons_of_not_isOption (Bool.eq_false_iff.2 hoption) arguments

/-- What the reader takes for assignments from the rest of the arguments. -/
theorem gains_of_gather? (h : gather? g pending arguments = some g') :
    g.Gains g' (setTextsAhead pending arguments) := by
  induction arguments generalizing g pending with
  | nil =>
    cases pending with
    | none => cases h; exact .of_assigned_eq rfl
    | some flag => cases h
  | cons argument arguments ih =>
    by_cases hmark : argument = "--".toList
    · -- Behind the mark there are templates only, and it is no value.
      subst hmark
      cases pending with
      | none => exact Gathered.gains_of_takeTemplates h
      | some flag => cases h
    · rw [gather?_cons hmark] at h
      obtain ⟨⟨g₁, pending₁⟩, hread, h⟩ := Option.bind_eq_some_iff.1 h
      obtain ⟨texts, hgains, htexts⟩ := gains_of_readArgument? hread arguments
      rw [htexts]
      exact hgains.trans (ih h)

/-- Arguments that are read to the end may be followed by others. -/
theorem gather?_append (hmark : "--".toList ∉ arguments)
    (h : gather? g pending arguments = some g') (more : List Text) :
    gather? g pending (arguments ++ more) = gather? g' none more := by
  induction arguments generalizing g pending with
  | nil =>
    cases pending with
    | none => cases h; rfl
    | some flag => cases h
  | cons argument arguments ih =>
    rw [List.mem_cons, not_or] at hmark
    rw [gather?_cons (Ne.symm hmark.1)] at h
    obtain ⟨⟨g₁, pending₁⟩, hread, h⟩ := Option.bind_eq_some_iff.1 h
    rw [List.cons_append, gather?_cons (Ne.symm hmark.1), hread]
    exact ih hmark.2 h

end Gather

/-! ### Arguments that only assign -/

/-- The arguments assign the pairs, and nothing else: each of the texts is an argument of its own,
if it is not like an option, or is joined to `--set`. -/
inductive SetArguments : List Text → List (Text × Text) → Prop
  | nil : SetArguments [] []
  | apart {raw : Text} {pair : Text × Text} {arguments : List Text} {pairs : List (Text × Text)}
    (h : Assigns raw pair) (hraw : isOption raw = false) (hmore : SetArguments arguments pairs) :
    SetArguments ("--set".toList :: raw :: arguments) (pair :: pairs)
  | joined {raw : Text} {pair : Text × Text} {arguments : List Text} {pairs : List (Text × Text)}
    (h : Assigns raw pair) (hmore : SetArguments arguments pairs) :
    SetArguments (("--set=".toList ++ raw) :: arguments) (pair :: pairs)

namespace Gathered

variable {g g' g₁ : Gathered}

/-- The state of the reader has the pairs behind those that it had, and is as before in all else. -/
structure Adds (g g' : Gathered) (pairs : List (Text × Text)) : Prop where
  template_eq : g'.template = g.template
  assigned_eq : g'.assigned = g.assigned ++ pairs
  value?_eq : ∀ flag, flag ≠ .assign → g'.value? flag = g.value? flag

/-- The invocation has the pairs more, and nothing else is changed. -/
theorem Adds.invocation?_eq {pairs : List (Text × Text)} (h : g.Adds g' pairs) :
    g'.invocation? =
      g.invocation?.map fun i ↦ { i with assigned := i.assigned ++ pairs } := by
  rw [invocation?, invocation?, h.template_eq, h.assigned_eq]
  rw [h.value?_eq .settings nofun, h.value?_eq .templates nofun, h.value?_eq .chunks nofun,
    h.value?_eq .sitePrefix nofun, h.value?_eq .data nofun, h.value?_eq .output nofun]
  cases g.template <;> rfl

theorem Adds.cons {pair : Text × Text} {pairs : List (Text × Text)} (h : g.Adds g₁ [pair])
    (h' : g₁.Adds g' pairs) : g.Adds g' (pair :: pairs) where
  template_eq := h'.template_eq.trans h.template_eq
  assigned_eq := by rw [h'.assigned_eq, h.assigned_eq, List.append_assoc, List.singleton_append]
  value?_eq flag hflag := (h'.value?_eq flag hflag).trans (h.value?_eq flag hflag)

/-- An assignment is accepted however many there were before it. -/
theorem exists_take?_assign {raw : Text} {pair : Text × Text} (h : Assigns raw pair)
    (g : Gathered) : ∃ g', g.take? .assign raw = some g' ∧ g.Adds g' [pair] := by
  have hpair := assignment?_eq_some_iff.2 h
  have hvalue : isValueOf .assign raw = true := Option.isSome_iff_exists.2 ⟨pair, hpair⟩
  refine ⟨_, if_pos ⟨hvalue, .inl rfl⟩, rfl, ?_, fun flag hflag ↦ ?_⟩
  · rw [assigned_concat, if_pos rfl, hpair]
    rfl
  · have hnone : [(Flag.assign, raw)].lookup flag = none := by
      rw [List.lookup_cons, beq_false_of_ne hflag]
      rfl
    rw [value?, List.lookup_append, hnone, Option.or_none]
    rfl

/-- Arguments that only assign are accepted, by induction on them. -/
theorem exists_gather?_setArguments {arguments : List Text} {pairs : List (Text × Text)}
    (h : SetArguments arguments pairs) (g : Gathered) :
    ∃ g', gather? g none arguments = some g' ∧ g.Adds g' pairs := by
  induction h generalizing g with
  | nil => exact ⟨g, rfl, rfl, (List.append_nil _).symm, fun _ _ ↦ rfl⟩
  | @apart raw pair arguments pairs h hraw hmore ih =>
    obtain ⟨g₁, htake, hadds⟩ := exists_take?_assign h g
    obtain ⟨g', hgather, hadds'⟩ := ih g₁
    refine ⟨g', ?_, hadds.cons hadds'⟩
    have hmark : raw ≠ "--".toList := by
      rintro rfl
      cases hraw
    have hread : readArgument? g (some .assign) raw = some (g₁, none) := by
      rw [readArgument?, hraw, htake]
      rfl
    show gather? g (some .assign) (raw :: arguments) = some g'
    rw [gather?_cons hmark, hread]
    exact hgather
  | @joined raw pair arguments pairs h hmore ih =>
    obtain ⟨g₁, htake, hadds⟩ := exists_take?_assign h g
    obtain ⟨g', hgather, hadds'⟩ := ih g₁
    refine ⟨g', ?_, hadds.cons hadds'⟩
    have hoption : optionOf? ("--set=".toList ++ raw) = some (.assign, some raw) :=
      optionOf?_eq_assign_iff.2 (.inr ⟨raw, rfl, rfl⟩)
    have hmark : "--set=".toList ++ raw ≠ "--".toList := nofun
    have hdash : isOption ("--set=".toList ++ raw) = true := rfl
    have hread : readArgument? g none ("--set=".toList ++ raw) = some (g₁, none) := by
      rw [readArgument?, if_pos hdash, hoption]
      show (g.take? .assign raw).map _ = _
      rw [htake]
      rfl
    rw [gather?_cons hmark, hread]
    exact hgather

end Gathered

/-! ### Invocations -/

namespace Invocation

variable {arguments : List Text} {i : Invocation}

/-- **What arguments assign.** Where arguments are accepted, each text that they give for `--set` is
an assignment, and the invocation has the pairs in the order of the texts. -/
theorem assigns_of_parse? (h : parse? arguments = some i) :
    List.Forall₂ Assigns (setTexts arguments) i.assigned := by
  obtain ⟨g, hgather, h⟩ := Option.bind_eq_some_iff.1 h
  obtain ⟨template, -, h⟩ := Option.bind_eq_some_iff.1 h
  cases h
  obtain ⟨pairs, hassigned, hpairs⟩ := gains_of_gather? hgather
  show List.Forall₂ Assigns _ g.assigned
  rw [hassigned]
  exact hpairs

/-- The texts that arguments give leave no choice of the pairs. -/
theorem assigned_eq_of_parse? (h : parse? arguments = some i) {pairs : List (Text × Text)}
    (hpairs : List.Forall₂ Assigns (setTexts arguments) pairs) : i.assigned = pairs :=
  List.right_unique_forall₂' rightUnique_assigns (assigns_of_parse? h) hpairs

/-- **Assignments are accepted.** Behind arguments that are accepted, others may assign whatever
pairs there are. -/
theorem parse?_append (h : parse? arguments = some i) (hmark : "--".toList ∉ arguments)
    {more : List Text} {pairs : List (Text × Text)} (hmore : SetArguments more pairs) :
    parse? (arguments ++ more) = some { i with assigned := i.assigned ++ pairs } := by
  obtain ⟨g, hgather, h⟩ := Option.bind_eq_some_iff.1 h
  obtain ⟨g', hgather', hadds⟩ := Gathered.exists_gather?_setArguments hmore g
  rw [parse?, gather?_append hmark hgather, hgather']
  show g'.invocation? = _
  rw [hadds.invocation?_eq, h]
  rfl

/-- The data of a rendering are what the data file holds, with the single values put in. -/
theorem mapping_eq {d : Disk} {given : Mapping} (h : i.given d = .ok given) :
    i.mapping d = .ok (assign given i.assigned) := by
  rw [mapping, h]
  rfl

/-- **What a command does.** With a site and data at hand, it renders the template with the data and
hands over what that comes to. -/
theorem runCommand_eq {m : Type → Type} [Monad m] [LawfulMonad m] (host : Host m) {d : Disk}
    {s : Site} {data : Mapping} (hparse : parse? arguments = some i) (hsite : i.site d = .ok s)
    (hdata : i.mapping d = .ok data) :
    runCommand host d arguments =
      Ending.of <$> (i.deliver host (s.render d i.template (.object data.entries))).run := by
  have hrun : i.run host d = i.deliver host (s.render d i.template (.object data.entries)) := by
    rw [run, hsite, hdata]
    show ((pure s : ExceptT CommandError m Site) >>= fun site ↦
      (pure data : ExceptT CommandError m Mapping) >>= fun data ↦
        i.deliver host (site.render d i.template (.object data.entries))) = _
    rw [pure_bind, pure_bind]
  rw [runCommand, hparse]
  show (do return Ending.of (← (i.run host d).run)) = _
  rw [hrun, map_eq_pure_bind]

end Invocation

end TagTemplate
