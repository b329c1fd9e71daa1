import TagTemplate.Json.Reader
import TagTemplate.Proofs.Lookup

/-!
# Values whose objects list their keys in order

A place in a value is a list of steps, each to a field of an object by its key or to an item of a
list by its index. A value is ordered if every object in it, at whatever place, lists its keys in
ascending order, so that no key is listed twice and a field is found wherever it is listed.

Objects that are built from fields are ordered (`Json.ordered_ofFields`), and so is every value that
is read from a text (`Json.ordered_read?`). A reader has several lists and objects open at once.
What carries the proof is that all that they hold is ordered, and the value that was just finished.
-/

namespace TagTemplate.Json

/-! ### Places -/

/-- One step into a value. -/
inductive Step
  /-- To the field of an object that has the key. -/
  | key (name : Text)
  /-- To the item of a list that has the index. -/
  | index (i : Nat)
deriving DecidableEq, Repr

namespace Step

/-- The text of the step in a name. -/
def text : Step → Text
  | key name => name
  | index i => Text.ofNat i

/-- Of two steps out of the same value, the one to be taken first. -/
def Before : Step → Step → Prop
  | key name, key name' => name < name'
  | index i, index i' => i < i'
  | _, _ => False

end Step

/-- The value that a step leads to. -/
def child? (j : Json) : Step → Option Json
  | .key name => j.field? name
  | .index i =>
    match j with
    | .list items => items[i]?
    | _ => none

/-- The value at a place. -/
def at? (j : Json) : List Step → Option Json
  | [] => some j
  | step :: path => (j.child? step).bind fun child ↦ child.at? path

/-- Every object in the value lists its keys in ascending order. -/
def Ordered (j : Json) : Prop :=
  ∀ path fields, j.at? path = some (.object fields) → fields.Pairwise fun a b ↦ a.1 < b.1

/-- A value is ordered if it lists its own keys in order and what it holds is ordered. -/
theorem ordered_iff {j : Json} :
    j.Ordered ↔ (∀ fields, j = .object fields → fields.Pairwise fun a b ↦ a.1 < b.1) ∧
      ∀ step child, j.child? step = some child → child.Ordered := by
  constructor
  · intro h
    refine ⟨fun fields hj ↦ h [] fields (congrArg some hj), fun step child hchild ↦ ?_⟩
    intro path fields hfields
    exact h (step :: path) fields (by rw [at?, hchild]; exact hfields)
  · rintro ⟨hown, hbelow⟩ (- | ⟨step, path⟩) fields hfields
    · exact hown fields (Option.some.inj hfields)
    · obtain ⟨child, hchild, hfields⟩ := Option.bind_eq_some_iff.1 hfields
      exact hbelow step child hchild path fields hfields

/-- The items of a list in order are in order. -/
theorem Ordered.item {items : List Json} (h : (Json.list items).Ordered) {item : Json}
    (hitem : item ∈ items) : item.Ordered := by
  obtain ⟨i, hi⟩ := List.getElem?_of_mem hitem
  exact (ordered_iff.1 h).2 (.index i) item hi

theorem Ordered.ascending {fields : List (Text × Json)} (h : (Json.object fields).Ordered) :
    fields.Pairwise fun a b ↦ a.1 < b.1 :=
  (ordered_iff.1 h).1 fields rfl

/-- The values of an object in order are in order. -/
theorem Ordered.field {fields : List (Text × Json)} (h : (Json.object fields).Ordered)
    {field : Text × Json} (hfield : field ∈ fields) : field.2.Ordered :=
  (ordered_iff.1 h).2 (.key field.1) field.2 ((Dict.lookup_eq_some_iff h.ascending).2 hfield)

theorem ordered_scalar (leaf : Scalar) : (Json.scalar leaf).Ordered :=
  ordered_iff.2 ⟨nofun, fun step _ hchild ↦ by cases step <;> cases hchild⟩

theorem ordered_null : Json.null.Ordered :=
  ordered_iff.2 ⟨nofun, fun step _ hchild ↦ by cases step <;> cases hchild⟩

theorem ordered_list {items : List Json} (h : ∀ item ∈ items, item.Ordered) :
    (Json.list items).Ordered := by
  refine ordered_iff.2 ⟨nofun, fun step child hchild ↦ ?_⟩
  cases step with
  | key => cases hchild
  | index i => exact h child (List.mem_of_getElem? hchild)

/-- **Objects that are built from fields are ordered**, if the values of the fields are. -/
theorem ordered_ofFields {fields : List (Text × Json)} (h : ∀ field ∈ fields, field.2.Ordered) :
    (ofFields fields).Ordered := by
  refine ordered_iff.2 ⟨fun below hbelow ↦ ?_, fun step child hchild ↦ ?_⟩
  · cases hbelow
    exact (Dict.ofList fields).sorted
  · cases step with
    | index => cases hchild
    | key name =>
      have hget : (Dict.ofList fields).get? name = some child := hchild
      rw [Dict.ofList, Dict.get?_foldl_insert, Dict.get?_empty, Option.or_none] at hget
      exact h _ (List.mem_reverse.1 (Dict.mem_of_lookup hget))

/-! ### Values that are read -/

/-- What a list or an object that is still open holds is ordered. -/
def Frame.Ordered : Frame → Prop
  | .list items => ∀ item ∈ items, item.Ordered
  | .object fields _ => ∀ field ∈ fields, field.2.Ordered

/-- What was read in front of the next token is ordered. -/
def Want.Ordered : Want → Prop
  | .key fields => ∀ field ∈ fields, field.2.Ordered
  | .colon fields _ => ∀ field ∈ fields, field.2.Ordered
  | .after j => j.Ordered
  | _ => True

section Reading

variable {frames : List Frame} {want : Want} {token : Token} {next : List Frame × Want}

/-- A value that begins leaves all that the reader holds in order. -/
theorem ordered_begin? (h : begin? frames token = some next)
    (hframes : ∀ frame ∈ frames, frame.Ordered) :
    (∀ frame ∈ next.1, frame.Ordered) ∧ next.2.Ordered := by
  have hnest {want : Want} (hopen : nest? frames want = some next) : next = (frames, want) := by
    rw [nest?] at hopen
    split at hopen
    · exact (Option.some.inj hopen).symm
    · cases hopen
  cases token with
  | null =>
    obtain rfl := Option.some.inj h
    exact ⟨hframes, ordered_null⟩
  | scalar leaf =>
    obtain rfl := Option.some.inj h
    exact ⟨hframes, ordered_scalar leaf⟩
  | openList =>
    obtain rfl := hnest h
    exact ⟨hframes, trivial⟩
  | openObject =>
    obtain rfl := hnest h
    exact ⟨hframes, trivial⟩
  | _ => cases h

/-- **One token** keeps what was read ordered. -/
theorem ordered_step? (h : step? frames want token = some next)
    (hframes : ∀ frame ∈ frames, frame.Ordered) (hwant : want.Ordered) :
    (∀ frame ∈ next.1, frame.Ordered) ∧ next.2.Ordered := by
  revert h
  fun_cases step? frames want token <;> intro h
  -- A value begins, alone or as the first item of a list.
  case case1 => exact ordered_begin? h hframes
  case case3 => exact ordered_begin? h (List.forall_mem_cons.2 ⟨nofun, hframes⟩)
  -- Here no token is allowed.
  case case10 | case12 | case14 | case15 => cases h
  all_goals obtain rfl := Option.some.inj h
  -- What is empty ends at once.
  case case2 => exact ⟨hframes, ordered_list nofun⟩
  case case4 => exact ⟨hframes, hwant⟩
  case case5 =>
    have hempty : (ofFields []).Ordered := ordered_ofFields fun _ hfield ↦ nomatch hfield
    exact ⟨hframes, hempty⟩
  case case6 => exact ⟨hframes, fun _ hfield ↦ nomatch hfield⟩
  case case7 => exact ⟨List.forall_mem_cons.2 ⟨hwant, hframes⟩, trivial⟩
  -- One item or field more is kept, and the next one is wanted.
  case case8 value items frames =>
    obtain ⟨hitems, hframes⟩ := List.forall_mem_cons.1 hframes
    have hlonger : Frame.Ordered (.list (value :: items)) := List.forall_mem_cons.2 ⟨hwant, hitems⟩
    exact ⟨List.forall_mem_cons.2 ⟨hlonger, hframes⟩, trivial⟩
  case case9 =>
    obtain ⟨hfields, hframes⟩ := List.forall_mem_cons.1 hframes
    exact ⟨hframes, List.forall_mem_cons.2 ⟨hwant, hfields⟩⟩
  -- The list or the object ends, with the last value in it.
  case case11 value items frames =>
    obtain ⟨hitems, hframes⟩ := List.forall_mem_cons.1 hframes
    have hlonger : Frame.Ordered (.list (value :: items)) := List.forall_mem_cons.2 ⟨hwant, hitems⟩
    exact ⟨hframes, ordered_list fun item hitem ↦ hlonger item (List.mem_reverse.1 hitem)⟩
  case case13 value fields key frames =>
    obtain ⟨hfields, hframes⟩ := List.forall_mem_cons.1 hframes
    have hlonger : ∀ field ∈ (key, value) :: fields, field.2.Ordered :=
      List.forall_mem_cons.2 ⟨hwant, hfields⟩
    exact ⟨hframes, ordered_ofFields fun field hfield ↦
      hlonger field (List.mem_reverse.1 hfield)⟩

/-- **All tokens.** -/
theorem ordered_ofTokens? {tokens : List Token} {j : Json}
    (h : ofTokens? frames want tokens = some j) (hframes : ∀ frame ∈ frames, frame.Ordered)
    (hwant : want.Ordered) : j.Ordered := by
  induction tokens generalizing frames want with
  | nil =>
    unfold ofTokens? at h
    split at h
    · obtain rfl := Option.some.inj h
      exact hwant
    · cases h
  | cons token tokens ih =>
    rw [ofTokens?] at h
    split at h
    · rename_i frames' want' hstep
      obtain ⟨hframes', hwant'⟩ := ordered_step? hstep hframes hwant
      exact ih h hframes' hwant'
    · cases h

/-- **Every value that a text spells is ordered.** -/
theorem ordered_read? {t : Text} {j : Json} (h : read? t = some j) : j.Ordered := by
  obtain ⟨tokens, -, h⟩ := Option.bind_eq_some_iff.1 h
  exact ordered_ofTokens? h nofun trivial

end Reading

end TagTemplate.Json
