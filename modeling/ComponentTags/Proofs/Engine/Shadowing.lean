import Mathlib
import ComponentTags.Proofs.Document.Stages
import ComponentTags.Proofs.Engine.Keys
import ComponentTags.Proofs.Engine.Templates

/-!
# Components that a document replaces

Components and the files of a document share the names of a unit, and the files come later. No two
components have a template name in common, and no two files of a document have. So a unit holds a
component's own template unless a file of the document goes by its name, and then it holds that
file. A shared fragment can go by it, since its name starts below the shared folder.
-/

namespace ComponentTags

/-! ## Names of components -/

/-- Components by lowered name, each name once. -/
structure Registry.WellFormed (r : Registry) : Prop where
  increasing : r.sources.Pairwise (·.1 < ·.1)
  lowered : ∀ name ∈ r.sources.map Prod.fst, Text.lower name = name

namespace Registry

theorem WellFormed.insert {r : Registry} (h : r.WellFormed) (name source : Text) :
    (r.insert name source).WellFormed where
  increasing := Keyed.pairwise_insert _ _ h.increasing
  lowered := by
    intro other hother
    obtain ⟨entry, hentry, rfl⟩ := List.mem_map.1 hother
    rcases Keyed.mem_insert hentry with rfl | hentry
    · exact Text.lower_lower name
    · exact h.lowered _ (List.mem_map_of_mem hentry)

theorem WellFormed.addFiles {site : Site} {r raw : Registry} {paths : List Text}
    (hr : r.WellFormed) (h : Registry.addFiles site r paths = .ok raw) : raw.WellFormed := by
  induction paths generalizing r with
  | nil =>
    cases h
    exact hr
  | cons path rest ih =>
    rw [Registry.addFiles] at h
    split at h
    · exact ih hr h
    · split at h
      · cases h
      · exact ih (hr.insert _ _) h

theorem wellFormed_of_componentSources {site : Site} {raw : Registry}
    (h : site.componentSources = .ok raw) : raw.WellFormed :=
  WellFormed.addFiles ⟨.nil, by simp⟩ h

theorem WellFormed.expanded {raw components : Registry} (hraw : raw.WellFormed)
    (h : raw.expanded = .ok components) : components.WellFormed := by
  have hnames : components.sources.map Prod.fst = raw.sources.map Prod.fst := by
    rw [eq_of_expanded h, Expander.map_fst_textsIn]
  constructor
  · have hincreasing := List.pairwise_map.2 hraw.increasing
    rw [← hnames] at hincreasing
    exact List.pairwise_map.1 hincreasing
  · rw [hnames]
    exact hraw.lowered

theorem WellFormed.nodup_texts {components : Registry} (h : components.WellFormed) :
    (components.texts.map Prod.fst).Nodup := by
  rw [texts, List.map_map]
  refine List.pairwise_map.2 (h.increasing.imp_of_mem ?_)
  intro a b ha hb hlt heq
  have hlower := List.append_cancel_left heq
  rw [List.cons.injEq, h.lowered _ (List.mem_map_of_mem ha), h.lowered _ (List.mem_map_of_mem hb)]
    at hlower
  rw [hlower.2] at hlt
  exact List.lt_irrefl _ hlt

end Registry

theorem Document.nodup_texts {components : Registry} {document : Document}
    (h : Source.Distinct document.sources) : ((document.texts components).map Prod.fst).Nodup := by
  rw [Document.texts, Expander.map_fst_textsIn, List.map_map]
  refine List.pairwise_map.2 (h.imp ?_)
  intro s t hne heq
  exact hne (congrArg Text.lower heq)

/-! ## What a unit holds -/

theorem CompiledUnit.filter_eq_of_nodup {α : Type} {entries : List (Text × α)}
    (h : (entries.map Prod.fst).Nodup) {e : Text × α} (he : e ∈ entries) :
    entries.filter (·.1 = e.1) = [e] := by
  induction entries with
  | nil => cases he
  | cons a rest ih =>
    rw [List.map_cons, List.nodup_cons] at h
    rcases List.mem_cons.1 he with rfl | hmem
    · have hnone : rest.filter (·.1 = e.1) = [] := by
        rw [List.filter_eq_nil_iff]
        intro b hb heq
        exact h.1 (of_decide_eq_true heq ▸ List.mem_map_of_mem hb)
      rw [List.filter_cons_of_pos (by simp), hnone]
    · have hne : a.1 ≠ e.1 := fun heq => h.1 (heq ▸ List.mem_map_of_mem hmem)
      rw [List.filter_cons_of_neg (by simpa using hne), ih h.2 hmem]

section Host

variable [TemplateLanguage] [TemplateLanguage.Lawful]

open TemplateLanguage (Environment source?)

namespace CompiledUnit

/-- Where no two texts have one name, each is held under its name. -/
theorem source?_of_mem {env env' : Environment} {texts : List (Text × Text)}
    (h : addTexts env texts = .ok env') (hnodup : (texts.map Prod.fst).Nodup) {name text : Text}
    (hmem : (name, text) ∈ texts) : source? env' name = some text := by
  have hfilter := filter_eq_of_nodup hnodup hmem
  rw [source?_of_addTexts h, hfilter]
  rfl

/-- A unit holds a file of its document, expanded, under its name. -/
theorem source?_of_mem_texts {env : Environment} {components : Registry} {document : Document}
    {unit : CompiledUnit} (h : compile env components document = .ok unit)
    (hd : Source.Distinct document.sources) {name text : Text}
    (hmem : (name, text) ∈ document.texts components) :
    source? unit.environment name = some text := by
  obtain ⟨_, -, hfiles⟩ := exists_addTexts_of_compile h
  exact source?_of_mem hfiles (Document.nodup_texts hd) hmem

/-- What goes by no name of the document's files is held as it was before. -/
theorem source?_of_notMem_names {env : Environment} {components : Registry} {document : Document}
    {unit : CompiledUnit} (h : compile env components document = .ok unit) {name : Text}
    (hname : name ∉ (document.texts components).map Prod.fst) :
    ∃ held, addTexts env components.texts = .ok held ∧
      source? unit.environment name = source? held name := by
  obtain ⟨held, hcomponents, hfiles⟩ := exists_addTexts_of_compile h
  refine ⟨held, hcomponents, ?_⟩
  rw [source?_of_notMem hfiles hname, TemplateLanguage.Lawful.source?_addFunction]

/-- A component is its own template unless a file of the document goes by the name of that. -/
theorem source?_of_mem_sources {env : Environment} {components : Registry} {document : Document}
    {unit : CompiledUnit} (h : compile env components document = .ok unit)
    (hcomponents : components.WellFormed) {name text : Text}
    (hmem : (name, text) ∈ components.sources)
    (hname : Registry.templateName components.folder name ∉
      (document.texts components).map Prod.fst) :
    source? unit.environment (Registry.templateName components.folder name) = some text := by
  obtain ⟨held, hheld, hsame⟩ := source?_of_notMem_names h hname
  rw [hsame]
  exact source?_of_mem hheld hcomponents.nodup_texts (List.mem_map_of_mem hmem)

end CompiledUnit

namespace Engine

/-- What a unit holds for a component, whatever the files are. A file of the document that goes by
the name of the component's template is held in its place, so the component has its own template
exactly if each such file, expanded, is the same text. -/
theorem source?_component_iff {e : Engine} {created files : FileSystem} {layout : Option Text}
    {target : Target} {document : Document} {unit : CompiledUnit} (he : e.LoadedFrom created)
    (hd : (e.site files).assembleFor layout target = .ok document)
    (h : e.compile files document = .ok unit) :
    ∃ raw components,
      (e.site (if e.isDebug then files else created)).componentSources = .ok raw ∧
      raw.expanded = .ok components ∧
      CompiledUnit.compile e.environment components document = .ok unit ∧
      (document.texts components).map Prod.fst = document.names ∧
      ∀ name text, (name, text) ∈ components.sources →
        (∀ other,
          (Registry.templateName components.folder name, other) ∈ document.texts components →
            source? unit.environment (Registry.templateName components.folder name) =
              some other) ∧
        (source? unit.environment (Registry.templateName components.folder name) = some text ↔
          ∀ other,
            (Registry.templateName components.folder name, other) ∈ document.texts components →
              other = text) := by
  obtain ⟨raw, components, hsources, hexpanded, hcompile⟩ := exists_components_of_compile he h
  obtain ⟨st⟩ := Site.nonempty_stages hd
  obtain ⟨_, _, _, hadded⟩ := st.exists_added
  have hwellFormed := (Registry.wellFormed_of_componentSources hsources).expanded hexpanded
  have hnames : (document.texts components).map Prod.fst = document.names := by
    rw [Document.texts, Expander.map_fst_textsIn, List.map_map]
    rfl
  refine ⟨raw, components, hsources, hexpanded, hcompile, hnames, fun name text hmem => ?_⟩
  have hfile : ∀ other,
      (Registry.templateName components.folder name, other) ∈ document.texts components →
        source? unit.environment (Registry.templateName components.folder name) = some other :=
    fun other hother => CompiledUnit.source?_of_mem_texts hcompile hadded.distinct hother
  refine ⟨hfile, fun heq other hother => ?_, fun hall => ?_⟩
  · exact Option.some.inj ((hfile other hother).symm.trans heq)
  · by_cases hname : Registry.templateName components.folder name ∈
        (document.texts components).map Prod.fst
    · obtain ⟨⟨_, other⟩, hother, rfl⟩ := List.mem_map.1 hname
      rw [hfile other hother, hall other hother]
    · exact CompiledUnit.source?_of_mem_sources hcompile hwellFormed hmem hname

end Engine

end Host

namespace Engine

/-! ## A shared fragment in the place of a component -/

/-- A component and a shared fragment in a folder that is called like that of the components. -/
def shadowFiles : FileSystem where
  top := .folder
    [("components".toList, .folder [("Icon.tmpl".toList, .file (some iconText))]),
      ("page.tmpl".toList, .file (some "<Icon/>".toList)),
      ("shared".toList, .folder
        [("components".toList, .folder [("icon.tmpl".toList, .file (some ['A']))])])]

def shadowComponents : Registry :=
  { folder := "components".toList, sources := [("icon".toList, iconText)] }

def shadowEngine [TemplateLanguage] : Engine :=
  { root := ['/'], options := cardOptions, components := shadowComponents, isDebug := false }

/-- The shared fragment has the name of the component's template. -/
def shadowDocument : Document :=
  { entry := "page".toList
    sources :=
      [⟨"page".toList, some "/page.tmpl".toList, "<Icon/>".toList, .entry, none⟩,
        ⟨"components/icon".toList, some "/shared/components/icon.tmpl".toList, ['A'], .shared,
          none⟩] }

theorem create_shadowFiles [TemplateLanguage] :
    create shadowFiles ['/'] cardOptions = .ok shadowEngine := by
  have hsources : (shadowEngine.site shadowFiles).componentSources = .ok shadowComponents := by cbv
  have hexpanded : shadowComponents.expanded = .ok shadowComponents :=
    Registry.expanded_of_expandSources
      (Registry.expandSources_cons (Expander.expand_of_done _ leaves_iconText) rfl)
  exact create_of_load (Registry.load_eq_ok_iff.2 ⟨shadowComponents, hsources, hexpanded⟩)

theorem assembleFor_shadowFiles [TemplateLanguage] :
    (shadowEngine.site shadowFiles).assembleFor none (.named "page".toList []) =
      .ok shadowDocument := by
  cbv

theorem mem_texts_shadowDocument :
    (Registry.templateName shadowComponents.folder "icon".toList, ['A']) ∈
      shadowDocument.texts shadowComponents := by
  have hpage := (expand_iconSource shadowComponents (by decide)).1
  have hfragment := Expander.expand_of_done { registry := some shadowComponents, issued := 1 }
    leaves_letters.1
  have hname : Registry.templateName shadowComponents.folder "icon".toList =
      "components/icon".toList := by decide
  have htexts : shadowDocument.texts shadowComponents =
      [("page".toList, iconCall), ("components/icon".toList, ['A'])] := by
    simp only [Document.texts, shadowDocument, List.map_cons, List.map_nil, Expander.textsIn,
      Source.prepared, hpage, hfragment]
  rw [hname, htexts]
  exact List.mem_cons_of_mem _ (List.mem_singleton_self _)

/-- The texts that a unit of the document is made of. -/
def shadowTexts : List Text :=
  [iconText, iconCall, ['A']]

/-- The document compiles in every language that accepts its texts. -/
theorem exists_compile_shadowDocument [TemplateLanguage]
    (h : ∀ text ∈ shadowTexts, TemplateLanguage.Accepts text) :
    ∃ unit, shadowEngine.compile shadowFiles shadowDocument = .ok unit := by
  rw [shadowTexts] at h
  simp only [List.forall_mem_cons] at h
  obtain ⟨hiconAccepted, hcallAccepted, hfragmentAccepted, -⟩ := h
  obtain ⟨env, hicon⟩ := CompiledUnit.exists_addTemplate hiconAccepted shadowEngine.environment
    (Registry.templateName shadowComponents.folder "icon".toList)
  obtain ⟨env', hpage⟩ := CompiledUnit.exists_addTemplate hcallAccepted
    (TemplateLanguage.addFunction env Call.functionName
      (Component.function shadowComponents.folder)) "page".toList
  obtain ⟨env'', hfragment⟩ := CompiledUnit.exists_addTemplate hfragmentAccepted env'
    "components/icon".toList
  have hfirst := CompiledUnit.addFiles_cons
    ⟨"page".toList, some "/page.tmpl".toList, "<Icon/>".toList, .entry, none⟩
    (expand_iconSource shadowComponents (by decide)).1 hpage
  have hsecond := CompiledUnit.addFiles_cons
    ⟨"components/icon".toList, some "/shared/components/icon.tmpl".toList, ['A'], .shared, none⟩
    (Expander.expand_of_done { registry := some shadowComponents, issued := 1 } leaves_letters.1)
    hfragment
  refine ⟨⟨env'', shadowDocument.entry, shadowDocument.names⟩, ?_⟩
  rw [compile_of_not_debug rfl]
  exact CompiledUnit.compile_eq_ok_iff.2
    ⟨env, CompiledUnit.addComponents_cons hicon [], (hfirst _).trans (hsecond []), rfl, rfl⟩

/-- The small language accepts them. -/
theorem accepts_shadowTexts : ∀ text ∈ shadowTexts, TemplateLanguage.Accepts text := by
  have hread : ∀ text ∈ shadowTexts, (Template.read? text).isSome := by decide +kernel
  exact fun text htext => Template.accepts_of_isSome_read? (hread text htext)

/-- Whatever the language is, the unit holds the fragment for the component. -/
theorem not_source?_component_shadowFiles :
    (∀ [TemplateLanguage] [TemplateLanguage.Lawful],
      create shadowFiles ['/'] cardOptions = .ok shadowEngine ∧
      (shadowEngine.site shadowFiles).assembleFor none (.named "page".toList []) =
        .ok shadowDocument ∧
      ("icon".toList, iconText) ∈ shadowEngine.components.sources ∧
      ∀ unit, shadowEngine.compile shadowFiles shadowDocument = .ok unit →
        TemplateLanguage.source? unit.environment (Registry.templateName
          shadowEngine.components.folder "icon".toList) = some ['A'] ∧ iconText ≠ ['A']) ∧
    ∃ unit, shadowEngine.compile shadowFiles shadowDocument = .ok unit := by
  refine ⟨fun {_} {_} => ⟨create_shadowFiles, assembleFor_shadowFiles, List.mem_singleton_self _,
    fun unit hcompile => ⟨?_, by decide⟩⟩, exists_compile_shadowDocument accepts_shadowTexts⟩
  rw [compile_of_not_debug rfl] at hcompile
  have hdistinct : Source.Distinct shadowDocument.sources := by
    refine List.pairwise_pair.2 ?_
    decide
  exact CompiledUnit.source?_of_mem_texts hcompile hdistinct mem_texts_shadowDocument

theorem source?_component_iff_shadowFiles :
    shadowEngine.LoadedFrom shadowFiles ∧
      (shadowEngine.site shadowFiles).assembleFor none (.named "page".toList []) =
        .ok shadowDocument ∧
      ∃ unit, shadowEngine.compile shadowFiles shadowDocument = .ok unit ∧
        TemplateLanguage.source? unit.environment
          (Registry.templateName shadowComponents.folder "icon".toList) = some ['A'] := by
  have he := loadedFrom_of_create create_shadowFiles
  obtain ⟨unit, hcompile⟩ := exists_compile_shadowDocument accepts_shadowTexts
  obtain ⟨raw, components, hsources, hexpanded, -, -, hunit⟩ :=
    source?_component_iff he assembleFor_shadowFiles hcompile
  have hload : Registry.load (shadowEngine.site shadowFiles) = .ok components :=
    Registry.load_eq_ok_iff.2 ⟨raw, hsources, hexpanded⟩
  obtain rfl : shadowComponents = components := Except.ok.inj (he.symm.trans hload)
  obtain ⟨hfile, -⟩ := hunit "icon".toList iconText (List.mem_singleton_self _)
  exact ⟨he, assembleFor_shadowFiles, unit, hcompile, hfile ['A'] mem_texts_shadowDocument⟩

end Engine

end ComponentTags
