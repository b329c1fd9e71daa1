import TagTemplate.Text.Split

/-!
# Filter chains

The name of a tag may end in filters, each `:method` and maybe an argument `` =`…` ``. An argument
may hold backticks and colons: it ends at the first backtick that is followed by the next filter or
by the end of the name. A filter is next when a colon is followed by a character other than a colon
and an equals sign.

What does not fit is passed over: an empty method, text between filters, and an argument that never
ends, whose characters are then searched for further filters.
-/

namespace TagTemplate

/-- One filter: its method as written and its argument without the backticks around it. -/
structure FilterStep where
  method : Text
  argument : Text
deriving DecidableEq, Repr

/-- Filters in the order in which they run. -/
abbrev FilterChain := List FilterStep

namespace FilterChain

/-- Whether an argument may end in front of the text. -/
def endsArgument : Text → Bool
  | [] => true
  | ':' :: c :: _ => c ≠ ':' && c ≠ '='
  | _ => false

/-- The argument at the start of the text and what follows its closing backtick. -/
def argument? : Text → Option (Text × Text)
  | [] => none
  | c :: t =>
    if c = Text.quoteMark ∧ endsArgument t = true then some ([], t)
    else (argument? t).map fun (argument, rest) ↦ (c :: argument, rest)

/-- Whether the character belongs to the name of a method. -/
def inMethod (c : Char) : Bool := c ≠ ':' && c ≠ '='

/-- The argument that follows a method, empty if there is none, and the text to go on with. -/
def argumentAfter (t : Text) : Text × Text :=
  match t with
  | '=' :: '`' :: quoted =>
    match argument? quoted with
    | some (argument, rest) => (argument, rest)
    | none => ([], t)
  | _ => ([], t)

theorem length_argument? {t argument rest : Text} (h : argument? t = some (argument, rest)) :
    rest.length < t.length := by
  induction t generalizing argument with
  | nil => simp [argument?] at h
  | cons c t ih =>
    rw [argument?] at h
    split at h
    · simp only [Option.some.injEq, Prod.mk.injEq] at h
      simp [h.2]
    · obtain ⟨⟨a, r⟩, hr, he⟩ := Option.map_eq_some_iff.1 h
      simp only [Prod.mk.injEq] at he
      have := ih (he.2 ▸ hr)
      simp only [List.length_cons]
      omega

theorem length_argumentAfter (t : Text) : (argumentAfter t).2.length ≤ t.length := by
  unfold argumentAfter
  split
  · split
    · rename_i h
      have := length_argument? h
      simp only [List.length_cons]
      omega
    · exact Nat.le_refl _
  · exact Nat.le_refl _

/-- Reads the filters in the text. -/
def parse (t : Text) : FilterChain :=
  match _h : t.dropWhile (· ≠ ':') with
  | [] => []
  | _ :: rest =>
    let method := rest.takeWhile inMethod
    if method.isEmpty then parse rest
    else
      let next := argumentAfter (rest.dropWhile inMethod)
      ⟨method, next.1⟩ :: parse next.2
termination_by t.length
decreasing_by
  all_goals
    have h1 := (List.dropWhile_sublist (· ≠ ':') (l := t)).length_le
    rw [_h, List.length_cons] at h1
  · omega
  · have h2 := length_argumentAfter (rest.dropWhile inMethod)
    have h3 := (List.dropWhile_sublist inMethod (l := rest)).length_le
    omega

/-- Splits a name as written into the bare name and its filters, which begin at the first colon. A
name that begins with a colon has no filters. -/
def splitName (name : Text) : Text × FilterChain :=
  let bare := name.takeWhile (· ≠ ':')
  if bare.isEmpty then (name, []) else (bare, parse (name.dropWhile (· ≠ ':')))

end FilterChain

end TagTemplate
