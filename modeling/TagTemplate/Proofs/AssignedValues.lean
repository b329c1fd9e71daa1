import TagTemplate.Proofs.CommandLine
import TagTemplate.Proofs.Confinement
import TagTemplate.Proofs.LeafNames

/-!
# Who has a name in a rendering

The placeholders that a rendering starts from come from three places. The attributes of the site are
written first, under their prefix; the data are written over them, key by key in ascending order;
and single values that the command line gives are put into the data, as top-level keys of them,
before any of it is written. A name can come from all three, for a nested key has the same name as a
top-level key with a dot in it.

The data of a command are what its data file holds, with the values put in that its arguments
assign, and the command renders with these data (`Invocation.runCommand_eq`). Which values its
arguments assign is read off from their texts in `Proofs.CommandLine`; here it is told who has a
name.

What was written last counts, and that is the value that was given singly. Anything in the data that
is named like the key of that value, other than the key itself, is nested below a key which that
name begins with, or below an empty key; such a key stands in front of the key of the value
(`List.IsPrefix.le`), so that it is written before it (`Site.lastNamed_leaf`). Elsewhere the data
are told by their leaves in the order of the keys, and the attributes matter only where the data
have no such name, since an engine that looks a name up without the prefix finds it in the data
first.
-/

namespace TagTemplate

open Json

namespace Json

/-- The last leaf of a name gives the text. -/
theorem lastNamed_of_last (name : List Text → Text) (before : List Leaf) (leaf : Leaf)
    {after : List Leaf} (h : ∀ later ∈ after, name later.1 ≠ name leaf.1) :
    lastNamed name (before ++ leaf :: after) (name leaf.1) = some leaf.2.text := by
  have hnone :
      (after.reverse.map fun leaf ↦ (name leaf.1, leaf.2)).lookup (name leaf.1) = none := by
    refine Dict.lookup_eq_none fun entry hentry ↦ ?_
    obtain ⟨later, hlater, rfl⟩ := List.mem_map.1 hentry
    exact h later (List.mem_reverse.1 hlater)
  rw [lastNamed, List.reverse_append, List.reverse_cons, List.map_append, List.map_append,
    List.lookup_append, List.lookup_append, hnone, List.map_singleton, Dict.lookup_cons, if_pos rfl]
  rfl

/-- The leaves of fields that follow others follow theirs. -/
theorem fieldLeaves_append (fields fields' : List (Text × Json)) :
    fieldLeaves (fields ++ fields') = fieldLeaves fields ++ fieldLeaves fields' := by
  induction fields with
  | nil => rfl
  | cons field fields ih =>
    obtain ⟨key, value⟩ := field
    rw [List.cons_append, fieldLeaves, fieldLeaves, ih, List.append_assoc]

/-- The path to a leaf of an object begins with one of its keys. -/
theorem exists_of_mem_fieldLeaves {fields : List (Text × Json)} {leaf : Leaf}
    (h : leaf ∈ fieldLeaves fields) : ∃ field ∈ fields, ∃ path, leaf.1 = field.1 :: path := by
  induction fields with
  | nil => cases h
  | cons field fields ih =>
    obtain ⟨key, value⟩ := field
    rw [fieldLeaves] at h
    rcases List.mem_append.1 h with h | h
    · obtain ⟨below, -, rfl⟩ := List.mem_map.1 h
      exact ⟨(key, value), List.mem_cons_self, below.1, rfl⟩
    · obtain ⟨field, hfield, hpath⟩ := ih h
      exact ⟨field, List.mem_cons_of_mem _ hfield, hpath⟩

theorem storedName_singleton (key : Text) : storedName [key] = key := by
  cases key <;> rfl

/-- The key at the top begins the name, unless it is empty. -/
theorem prefix_storedName {key : Text} (h : key ≠ []) (path : List Text) :
    key <+: storedName (key :: path) := by
  rw [storedName_of_ne_nil h]
  cases path with
  | nil => exact List.prefix_refl _
  | cons child path => exact (List.prefix_append key ['.']).trans (List.prefix_append _ _)

end Json

namespace Invocation

/-- What the data have under a key: the last value that was put in under it, else what they had. -/
theorem get?_assign (data : Mapping) (values : List (Text × Text)) (key : Text) :
    (assign data values).get? key =
      ((values.reverse.lookup key).map Json.str).or (data.get? key) := by
  have hpairs : assign data values = (values.map fun pair ↦ (pair.1, Json.str pair.2)).foldl
      (fun data pair ↦ data.insert pair.1 pair.2) data := by
    rw [List.foldl_map]
    rfl
  rw [hpairs, Dict.get?_foldl_insert, ← List.map_reverse, Dict.lookup_map fun _ ↦ Json.str]

end Invocation

namespace Site

/-- **A key at the top comes last** of all that is named like it. -/
theorem lastNamed_leaf {data : Mapping} {key : Text} {value : Scalar}
    (h : data.get? key = some (.scalar value)) :
    lastNamed storedName (Json.object data.entries).leaves key = some value.text := by
  obtain ⟨front, behind, hentries⟩ := List.append_of_mem (Dict.get?_eq_some_iff.1 h)
  have hlater : ∀ field ∈ behind, key < field.1 := by
    have hsorted := data.sorted
    rw [hentries, List.pairwise_append] at hsorted
    exact (List.pairwise_cons.1 hsorted.2.1).1
  have hleaves : (Json.object data.entries).leaves =
      fieldLeaves front ++ ([key], value) :: fieldLeaves behind := by
    rw [leaves, hentries, fieldLeaves_append]
    rfl
  have hnames : ∀ leaf ∈ fieldLeaves behind, storedName leaf.1 ≠ storedName [key] := by
    intro leaf hleaf hname
    obtain ⟨field, hfield, path, hpath⟩ := exists_of_mem_fieldLeaves hleaf
    have hlt := hlater field hfield
    have hne : field.1 ≠ [] := fun hnil ↦ List.not_lt_nil key (hnil ▸ hlt)
    have hbegins := prefix_storedName hne path
    rw [← hpath, hname, storedName_singleton] at hbegins
    exact hbegins.le hlt
  have hlast := lastNamed_of_last storedName (fieldLeaves front) ([key], value) hnames
  rw [← hleaves, storedName_singleton] at hlast
  exact hlast

/-- What a rendering finds under a name that a leaf of the data has. -/
theorem lookup_startingStore {s : Site} {data : Mapping} {key text : Text} (d : Disk)
    (h : lastNamed storedName (Json.object data.entries).leaves key = some text) :
    (s.engine d).lookup (s.startingStore data) key = some text := by
  have hfound : (s.startingStore data).text? key = some text := by
    rw [startingStore, Store.text?_writeBelow, h, Option.some_or]
  rw [Engine.lookup, hfound]

/-- The entries of a mapping are the mapping. -/
theorem ofJson_entries (values : SiteValues) (data : Mapping) :
    Mapping.ofJson values (.object data.entries) = .ok data :=
  congrArg Except.ok data.ofList_entries

/-- **Values that are given singly win, and then the last leaf of the data.** A command whose
arguments assign the values puts them into the data of its data file, and hands over what it renders
with them; arguments that only assign are accepted behind others that are. A rendering of data into
which values were put starts from the store that is told here, whatever the site is. Under each key
that a value was given for, it finds the last such value, also if nested data or the site have that
name. And under the name of a leaf of the data, these values among them, it finds the text of that
leaf, if no later leaf has the same name. -/
theorem given_values_win (s : Site) (d : Disk) (given : Mapping) (values : List (Text × Text))
    (hkey : (Invocation.assign given values).contains reservedKey = false) :
    let data := Invocation.assign given values
    let lookup := (s.engine d).lookup (s.startingStore data)
    (∀ (arguments : List Text) (i : Invocation), Invocation.parse? arguments = some i →
      List.Forall₂ Assigns (setTexts arguments) values →
      i.site d = .ok s → i.given d = .ok given →
      i.mapping d = .ok data ∧
      ∀ (m : Type → Type) [Monad m] [LawfulMonad m] (host : Host m),
        runCommand host d arguments = Ending.of <$> (i.deliver host
          ((s.readTemplate d i.template).bind (s.resolveTemplate d data))).run) ∧
    (∀ (arguments more : List Text) (i : Invocation), Invocation.parse? arguments = some i →
      "--".toList ∉ arguments → SetArguments more values →
      Invocation.parse? (arguments ++ more) = some { i with assigned := i.assigned ++ values }) ∧
    (∀ template, s.render d template (.object data.entries) =
      (s.readTemplate d template).bind (s.resolveTemplate d data)) ∧
    (∀ key, data.get? key = ((values.reverse.lookup key).map Json.str).or (given.get? key)) ∧
    (∀ key value, values.reverse.lookup key = some value → lookup key = some value) ∧
    ∀ before leaf after, (Json.object data.entries).leaves = before ++ leaf :: after →
      (∀ later ∈ after, storedName later.1 ≠ storedName leaf.1) →
      lookup (storedName leaf.1) = some leaf.2.text := by
  intro data lookup
  have hassign := Invocation.get?_assign given values
  have hrender (template : Text) : s.render d template (.object data.entries) =
      (s.readTemplate d template).bind (s.resolveTemplate d data) :=
    render_eq (ofJson_entries .renderData data) hkey
  refine ⟨fun arguments i hparse hvalues hsite hgiven ↦ ?_,
    fun arguments more i hparse hmark hmore ↦ Invocation.parse?_append hparse hmark hmore,
    hrender, hassign, ?_, ?_⟩
  · -- The arguments assign the values, which are put in over what the data file holds.
    have hdata : i.mapping d = .ok data := by
      rw [Invocation.mapping_eq hgiven, Invocation.assigned_eq_of_parse? hparse hvalues]
    refine ⟨hdata, fun m _ _ host ↦ ?_⟩
    rw [← hrender]
    exact Invocation.runCommand_eq host hparse hsite hdata
  · -- A value that was given is a leaf at the top, and such a leaf comes last.
    intro key value hvalue
    have hleaf : data.get? key = some (.scalar (.str value)) := by
      rw [hassign, hvalue]
      rfl
    exact lookup_startingStore d (lastNamed_leaf hleaf)
  · intro before leaf after hleaves hlater
    refine lookup_startingStore d ?_
    rw [hleaves]
    exact lastNamed_of_last storedName before leaf hlater

/-- A site whose attribute has the name of a nested key. -/
def crowdedSite : Site where
  config := { templates := "pages".toList, chunks := "chunks".toList, sitePrefix := "a.".toList }
  attributes := .ofList [(['b'], .str "site".toList)]

/-- Data that have this name below an empty key and below a key that it begins with. -/
def crowded : Mapping :=
  .ofList [([], .object [(['a'], .object [(['b'], .int 1)]), (['c'], .int 2)]),
    (['a'], .object [(['b'], .int 3), (['d'], .list [.null, .int 4])]), (['c'], .bool true)]

/-- A site as options describe it, without attributes. -/
def optionSite : Site := { crowdedSite with attributes := .empty }

/-- A disk with the folders of such a site. -/
def optionDisk : Disk where
  entries := .ofList [("/chunks".toList, .folder), ("/pages".toList, .folder)]

/-- The value that was given last wins, and the later of two leaves with one name; and these are the
values that a command takes from its arguments. -/
theorem crowded_lookup :
    let values := [("a.b".toList, ['5']), ("a.b".toList, ['6'])]
    (let data := Invocation.assign crowded values
      let lookup := (crowdedSite.engine ⟨.empty, []⟩).lookup (crowdedSite.startingStore data)
      data.contains reservedKey = false ∧ lookup "a.b".toList = some ['6'] ∧
        lookup ['c'] = some "true".toList ∧ lookup "a.d.1".toList = some ['4']) ∧
    let options := ["post", "--templates", "pages", "--chunks", "chunks", "--site-prefix", "a."]
    let sets := ["--set", "a.b=5", "--set= a.b =6"]
    ∃ i, Invocation.parse? ((options ++ sets).map String.toList) = some i ∧
      i.site optionDisk = .ok optionSite ∧
      i.mapping optionDisk = .ok (Invocation.assign .empty values) := by
  intro values
  constructor
  · -- Two values for one key, and two nested leaves that have its name.
    intro data lookup
    have hkey : data.contains reservedKey = false := by decide
    obtain ⟨-, -, -, -, hvalues, hleaves⟩ :=
      given_values_win crowdedSite ⟨.empty, []⟩ crowded values hkey
    let fields := (Json.object data.entries).leaves
    refine ⟨hkey, hvalues _ _ (by decide), ?_, ?_⟩
    · exact hleaves (fields.take 5) ([['c']], .bool true) [] (by decide) (by decide)
    · exact hleaves (fields.take 3) ([['a'], ['d'], ['1']], .num (.int 4)) (fields.drop 4)
        (by decide) (by decide)
  · -- The options alone are accepted, and so they are with the assignments behind them.
    intro options sets
    have hkey : (Invocation.assign .empty values).contains reservedKey = false := by decide
    obtain ⟨hcommand, hmore, -⟩ := given_values_win optionSite optionDisk .empty values hkey
    have hfirst : Assigns "a.b=5".toList ("a.b".toList, ['5']) :=
      ⟨"a.b".toList, rfl, by decide, rfl, by decide⟩
    have hsecond : Assigns " a.b =6".toList ("a.b".toList, ['6']) :=
      ⟨" a.b ".toList, rfl, by decide, rfl, by decide⟩
    have hparse := hmore (options.map String.toList) (sets.map String.toList) _ rfl (by decide)
      (.apart hfirst rfl (.joined hsecond .nil))
    have htexts := List.Forall₂.cons hfirst (.cons hsecond .nil)
    exact ⟨_, hparse, rfl, (hcommand _ _ hparse htexts rfl rfl).1⟩

end Site

end TagTemplate
