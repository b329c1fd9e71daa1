import TagTemplate.Proofs.PathSteps
import TagTemplate.Site.Render

/-!
# Names stay in their folders

Chunks and templates are named by texts that whoever writes a template or asks for a rendering is
free to choose, and a name becomes the path of a file. The check looks at the name, and the path is
joined from the name, for a chunk with an ending behind it. What has to be seen is that this does
not open a way out: the ending makes the last piece of the name longer, so that it is a name
whatever it was before (`Chunk.below_of_file?`), and a name that passes for a template adds its
names and nothing else (`Site.below_of_isFile`).

That nothing else is read is told by comparing disks. Two disks are alike below a folder if they
answer alike for the paths below it (`Disk.AlikeBelow`). What a source of chunks answers, and what a
rendering comes to, is the same on such disks, so it cannot depend on any file that stands
elsewhere.
-/

namespace TagTemplate

/-- The disks give the same answers for paths below the folder. -/
def Disk.AlikeBelow (folder : Path) (d d' : Disk) : Prop :=
  ∀ path, Path.Below folder path → d.isFile path = d'.isFile path ∧ d.read path = d'.read path

namespace Chunk

/-! ### Chunks -/

/-- The name of a chunk only goes down if it is neither empty nor absolute, has no piece `..` and
does not begin with a piece `.`. -/
theorem isPlain_iff {name : Text} :
    isPlain name = true ↔ name ≠ [] ∧ Path.isAbsolute name = false ∧
      ['.', '.'] ∉ Text.splitAt '/' name ∧ (Text.splitAt '/' name).head? ≠ some ['.'] := by
  rw [isPlain, Bool.and_eq_true,
    Path.all_components_iff (f := Component.isName) rfl rfl fun _ ↦ rfl]
  simp [Component.isName]

/-- **What is refused**: an empty name, an absolute one, one with a piece `..`, and one that begins
with a piece `.`. -/
theorem file?_eq_none_iff {folder name : Text} :
    file? folder name = none ↔ name = [] ∨ name.head? = some '/' ∨
      ['.', '.'] ∈ Text.splitAt '/' name ∨ (Text.splitAt '/' name).head? = some ['.'] := by
  have hnot : file? folder name = none ↔ ¬isPlain name = true := by
    rw [file?]
    split <;> simp [*]
  rw [hnot, isPlain_iff, Path.isAbsolute, decide_eq_false_iff_not]
  tauto

/-- With the ending of chunk files behind it, the last piece of a name is a proper one. -/
theorem append_ending_ne (last : Text) :
    last ++ ending ≠ [] ∧ last ++ ending ≠ ['.'] ∧ last ++ ending ≠ ['.', '.'] := by
  have hlength : 2 < (last ++ ending).length := by
    rw [List.length_append]
    exact Nat.lt_add_left _ (by decide)
  refine ⟨fun h ↦ ?_, fun h ↦ ?_, fun h ↦ ?_⟩ <;> rw [h] at hlength <;>
    exact absurd hlength (by decide)

/-- **The file of a chunk is below the folder.** -/
theorem below_of_file? {folder name : Text} {path : Path} (h : file? folder name = some path) :
    Path.Below folder path := by
  have hplain : isPlain name = true := by
    by_contra hnot
    rw [file?, if_neg hnot] at h
    cases h
  rw [file?, if_pos hplain] at h
  cases h
  obtain ⟨hne, habsolute, hup, hhere⟩ := isPlain_iff.1 hplain
  obtain ⟨front, last, hname, happend⟩ := Text.exists_splitAt_append '/' name
  have hchild : Text.splitAt '/' (name ++ ending) = front ++ [last ++ ending] :=
    happend ending (by decide)
  obtain ⟨hnil, hdot, hdots⟩ := append_ending_ne last
  rw [hname, List.mem_append, not_or] at hup
  refine Path.below_join ?_ ?_ (fun _ ↦ ?_) (List.ne_nil_of_mem (a := last ++ ending) ?_)
  · obtain ⟨c, name, rfl⟩ := List.exists_cons_of_ne_nil hne
    exact habsolute
  · rw [hchild, List.mem_append, List.mem_singleton]
    exact not_or.2 ⟨hup.1, Ne.symm hdots⟩
  · rw [hchild]
    cases front with
    | nil => exact fun heq ↦ hdot (Option.some.inj heq)
    | cons piece front => rwa [hname] at hhere
  · rw [Path.names, hchild, List.mem_filter]
    exact ⟨List.mem_append_right _ List.mem_cons_self, by simp [hnil, hdot]⟩

end Chunk

/-- A source of chunks in a folder answers from files below it. -/
theorem ChunkSource.ofFolder_congr {folder : Path} {d d' : Disk} (h : d.AlikeBelow folder d') :
    ofFolder d folder = ofFolder d' folder := by
  funext name
  cases hfile : Chunk.file? folder name with
  | none => rw [ofFolder, ofFolder, hfile]
  | some file =>
    rw [ofFolder, ofFolder, hfile]
    simp only [(h file (Chunk.below_of_file? hfile)).2]

namespace Site

/-! ### Templates -/

variable {s : Site} {d d' : Disk} {template : Text}

/-- The name of a template stays inside if it is neither empty nor absolute and has no piece
`..`. -/
theorem isInside_iff :
    isInside template = true ↔ template ≠ [] ∧ Path.isAbsolute template = false ∧
      ['.', '.'] ∉ Text.splitAt '/' template := by
  rw [isInside, Bool.and_eq_true,
    Path.all_components_iff (f := fun c ↦ c.isName || c = .here) rfl rfl fun _ ↦ rfl]
  simp

/-- The template folder of a site has a name, for an empty path leads to no folder. -/
theorem templates_ne_nil_of_open? {config : SiteConfig} {attributes : Json}
    (h : open? d config attributes = .ok s) : s.config.templates ≠ [] := by
  rw [open?] at h
  split at h
  · cases h
  · rename_i hfolder
    split at h
    · cases h
    · have hconfig : s.config = config := by
        rcases hattributes : Mapping.ofJson .attributes attributes with err | mapping <;>
          rw [hattributes] at h <;> cases h
        rfl
      rw [hconfig]
      intro hnil
      rw [hnil] at hfolder
      exact hfolder rfl

/-- **A template is a file below the template folder.** -/
theorem below_of_isFile (htemplates : s.config.templates ≠ []) (hinside : isInside template = true)
    (hfile : d.isFile (s.templatePath template) = true) :
    Path.Below s.config.templates (s.templatePath template) := by
  obtain ⟨-, habsolute, hup⟩ := isInside_iff.1 hinside
  refine Path.below_join habsolute hup (fun hnil ↦ absurd hnil htemplates) fun hnames ↦ ?_
  obtain ⟨above, hjoin, -⟩ := Path.exists_join_eq habsolute htemplates
  rw [templatePath, hjoin, Disk.isFile_eq_false_of_idle d above fun _ hpiece ↦
    Path.component?_of_names_eq_nil hnames hpiece] at hfile
  cases hfile

/-- For a name that leads out of the folder there is no template, whatever the disk holds. -/
theorem readTemplate_of_not_isInside (h : isInside template = false) :
    s.readTemplate d template = .error (.noTemplate template (s.templatePath template)) := by
  rw [readTemplate, h]
  rfl

/-- Any other answer than that there is no template comes from a file, under a name that stays
inside. -/
theorem isFile_of_readTemplate_ne
    (h : s.readTemplate d template ≠ .error (.noTemplate template (s.templatePath template))) :
    isInside template = true ∧ d.isFile (s.templatePath template) = true := by
  rw [← Bool.and_eq_true]
  by_contra hnot
  exact h (by rw [readTemplate, if_neg hnot])

/-- Reading a template takes nothing from outside the template folder. -/
theorem readTemplate_congr (htemplates : s.config.templates ≠ [])
    (h : d.AlikeBelow s.config.templates d') :
    s.readTemplate d template = s.readTemplate d' template := by
  cases hinside : isInside template with
  | false => rw [readTemplate_of_not_isInside hinside, readTemplate_of_not_isInside hinside]
  | true =>
    by_cases hbelow : Path.Below s.config.templates (s.templatePath template)
    · rw [readTemplate, readTemplate, (h _ hbelow).1, (h _ hbelow).2]
    · have hnone (d : Disk) : d.isFile (s.templatePath template) = false :=
        Bool.eq_false_iff.2 fun hfile ↦ hbelow (below_of_isFile htemplates hinside hfile)
      rw [readTemplate, readTemplate, hnone d, hnone d', Bool.and_false]
      rfl

/-! ### Renderings -/

/-- What a rendering makes of the text of its template. -/
def resolveTemplate (s : Site) (d : Disk) (data : Mapping) (content : Text) :
    Except SiteError Text :=
  match ((s.engine d).processTags request content { store := s.startingStore data }).1 with
  | .ok (output, _) => .ok output
  | .error cause => .error (.resolution cause)

/-- A rendering of proper data reads the template and resolves it. -/
theorem render_eq {data : Json} {mapping : Mapping}
    (hdata : Mapping.ofJson .renderData data = .ok mapping)
    (hkey : mapping.contains reservedKey = false) :
    s.render d template data = (s.readTemplate d template).bind (s.resolveTemplate d mapping) := by
  rw [render, hdata]
  change (if mapping.contains reservedKey then _ else _) = _
  rw [hkey]
  rfl

/-- Resolving a template takes nothing from outside the chunk folder. -/
theorem resolveTemplate_congr (h : d.AlikeBelow s.config.chunks d') (data : Mapping) :
    s.resolveTemplate d data = s.resolveTemplate d' data := by
  have hengine : s.engine d = s.engine d' := by
    rw [engine, engine, ChunkSource.ofFolder_congr h]
  funext content
  rw [resolveTemplate, resolveTemplate, hengine]

/-- **No name leaves its folder.** The names of chunks that are refused are those that are empty,
absolute, have a piece `..` or begin with a piece `.`; any other name leads to a file below the
folder, and whatever the name, the answer depends on files below the folder only. For a site that
was opened, with attributes that may have been replaced since, a rendering for a template name that
is empty, absolute or has a piece `..` finds no template; where it finds one, this is a file below
the template folder. What it reads as its template depends on files below that folder only, and what
it comes to depends on these and on files below the chunk folder. -/
theorem no_name_escapes :
    (∀ folder name : Text,
      (Chunk.file? folder name = none ↔ name = [] ∨ name.head? = some '/' ∨
        ['.', '.'] ∈ Text.splitAt '/' name ∨ (Text.splitAt '/' name).head? = some ['.']) ∧
      (∀ path, Chunk.file? folder name = some path → Path.Below folder path) ∧
      ∀ d d' : Disk, d.AlikeBelow folder d' →
        ChunkSource.ofFolder d folder name = ChunkSource.ofFolder d' folder name) ∧
    ∀ (d₀ : Disk) (config : SiteConfig) (given : Json) (s₀ : Site), open? d₀ config given = .ok s₀ →
      ∀ (attributes : Mapping) (template : Text) (data : Json) (mapping : Mapping),
      Mapping.ofJson .renderData data = .ok mapping → mapping.contains reservedKey = false →
      ∀ d : Disk,
      let s : Site := { s₀ with attributes }
      let path := s.templatePath template
      (template = [] ∨ template.head? = some '/' ∨ ['.', '.'] ∈ Text.splitAt '/' template →
        s.render d template data = .error (.noTemplate template path)) ∧
      (s.render d template data ≠ .error (.noTemplate template path) →
        Path.Below s.config.templates path ∧ d.isFile path = true) ∧
      ∀ d' : Disk, d.AlikeBelow s.config.templates d' →
        s.readTemplate d template = s.readTemplate d' template ∧
        (d.AlikeBelow s.config.chunks d' →
          s.render d template data = s.render d' template data) := by
  refine ⟨fun folder name ↦ ⟨Chunk.file?_eq_none_iff, fun _ ↦ Chunk.below_of_file?,
    fun d d' halike ↦ congrFun (ChunkSource.ofFolder_congr halike) name⟩, ?_⟩
  intro d₀ config given s₀ hopen attributes template data mapping hdata hkey d s path
  have htemplates : s.config.templates ≠ [] :=
    show s₀.config.templates ≠ [] from templates_ne_nil_of_open? hopen
  refine ⟨fun hname ↦ ?_, fun hne ↦ ?_, fun d' halike ↦ ⟨readTemplate_congr htemplates halike, ?_⟩⟩
  · -- A name that leads out is refused before the disk is looked at.
    have hinside : isInside template = false := by
      rw [Bool.eq_false_iff]
      intro hinside
      obtain ⟨hne, habsolute, hup⟩ := isInside_iff.1 hinside
      exact hname.elim hne (Or.rec (of_decide_eq_false habsolute) hup)
    rw [render_eq hdata hkey, readTemplate_of_not_isInside hinside]
    rfl
  · -- Any other answer comes from reading the template.
    have hread : s.readTemplate d template ≠ .error (.noTemplate template path) := fun heq ↦
      hne (by rw [render_eq hdata hkey, heq]; rfl)
    obtain ⟨hinside, hfile⟩ := isFile_of_readTemplate_ne hread
    exact ⟨below_of_isFile htemplates hinside hfile, hfile⟩
  · -- Reading and resolving take nothing from elsewhere, each from its folder.
    intro hchunks
    rw [render_eq hdata hkey, render_eq hdata hkey, readTemplate_congr htemplates halike,
      resolveTemplate_congr hchunks]

/-- A site with one template, and a file next to its folders. -/
def hedgedDisk : Disk where
  entries := .ofList [("/chunks".toList, .folder), ("/secret".toList, .file (some ['!'])),
    ("/pages".toList, .folder), ("/pages/post".toList, .file (some "Hello".toList))]

def hedgedConfig : SiteConfig := { templates := "pages".toList, chunks := "chunks".toList }

/-- A chunk name with a blank piece and a last slash, names that lead to the file next to the
folders, and a template name with a dot. -/
theorem hedged_names :
    Chunk.file? "chunks".toList "a//./b/".toList = some "chunks/a//./b/.tpl".toList ∧
      Path.Below "chunks".toList "chunks/a//./b/.tpl".toList ∧
      Chunk.file? "chunks".toList "a/../../secret".toList = none ∧
      Path.Below "pages".toList "pages/./post".toList ∧
      (Site.mk hedgedConfig .empty).render hedgedDisk "../secret".toList .null =
        .error (.noTemplate "../secret".toList "pages/../secret".toList) := by
  have hfile : Chunk.file? "chunks".toList "a//./b/".toList = some "chunks/a//./b/.tpl".toList := by
    decide
  have hopen : open? hedgedDisk hedgedConfig .null = .ok ⟨hedgedConfig, .empty⟩ := rfl
  obtain ⟨hchunks, htemplates⟩ := no_name_escapes
  have hrender (template : Text) := htemplates hedgedDisk hedgedConfig .null _ hopen .empty template
    .null .empty rfl rfl hedgedDisk
  refine ⟨hfile, (hchunks _ _).2.1 _ hfile, (hchunks _ _).1.2 (by decide), ?_, ?_⟩
  · exact ((hrender "./post".toList).2.1 (by decide +kernel)).1
  · exact (hrender "../secret".toList).1 (by decide)

end Site

end TagTemplate
