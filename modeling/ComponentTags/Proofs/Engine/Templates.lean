import Mathlib
import ComponentTags.Text.LetterCase.Lowered
import ComponentTags.Proofs.Call.Quoting
import ComponentTags.Proofs.Document.Stages
import ComponentTags.Proofs.Engine.Identifiers

/-!
# Templates of a unit

A unit holds the templates of the components and after them those of the files of its document.
Where two have one name, the later one stays. A tag is made into a call only if the registry knows
its name, and each name that it knows has a template under the name that the call looks up.
-/

namespace ComponentTags

namespace Expander

/-! ## Expanded texts -/

/-- The texts that one expander makes of named sources, which it goes over one after the other. -/
def textsIn (x : Expander) : List (Text × Text) → List (Text × Text)
  | [] => []
  | (name, source) :: rest =>
    (name, (x.expand source).text) :: (x.expand source).expander.textsIn rest

@[simp] theorem map_fst_textsIn (x : Expander) (sources : List (Text × Text)) :
    (x.textsIn sources).map Prod.fst = sources.map Prod.fst := by
  induction sources generalizing x with
  | nil => rfl
  | cons entry rest ih => rw [textsIn, List.map_cons, List.map_cons, ih]

theorem eq_textsIn_of_expandSources {x : Expander} {sources expanded : List (Text × Text)}
    (h : Registry.expandSources x sources = .ok expanded) : expanded = x.textsIn sources := by
  induction sources generalizing x expanded with
  | nil => exact (Except.ok.inj h).symm
  | cons entry rest ih =>
    simp only [Registry.expandSources, bind, Except.bind] at h
    split at h
    · cases h
    · split at h
      · cases h
      · next hrest =>
        cases h
        rw [textsIn, ih hrest]

/-! ## Known names -/

/-- A pass only makes calls of components that it knows. -/
theorem knows_of_pass {x y : Expander} {source next : Text} {blocks : List Block}
    (h : x.pass source blocks = (y, .ok next)) : ∀ block ∈ blocks, x.knows block.name := by
  rw [pass] at h
  split at h
  · cases h
  · next hfind => simpa using hfind

theorem knows_of_mem_calls {x : Expander} {source : Text} {call : Block × Nat}
    (h : call ∈ x.calls source) : x.knows call.1.name := by
  fun_induction calls x source with
  | case1 => cases h
  | case2 => cases h
  | case3 => cases h
  | case4 x source block blocks hl y next hp _ ih =>
    obtain rfl := expander_of_pass hp
    rcases List.mem_append.1 h with h | h
    · exact knows_of_pass hp _ (List.fst_mem_of_mem_zipIdx h)
    · exact ih h

theorem knows_of_mem_callsIn {x : Expander} {sources : List Text} (hx : x.ExpandsAll sources)
    {call : Block × Nat} (h : call ∈ x.callsIn sources) : x.knows call.1.name := by
  induction sources generalizing x with
  | nil => cases h
  | cons source rest ih =>
    obtain ⟨⟨n, hn⟩, hrest⟩ := hx
    obtain ⟨-, hexpander⟩ := numberedFrom_calls hn
    rcases List.mem_append.1 h with h | h
    · exact knows_of_mem_calls h
    · have hknows := ih hrest h
      rwa [hexpander] at hknows

end Expander

/-- The texts of components, each under the name of its template. -/
def Registry.texts (components : Registry) : List (Text × Text) :=
  components.sources.map fun e => (templateName components.folder e.1, e.2)

/-- The expanded texts of the files of a document. -/
def Document.texts (components : Registry) (document : Document) : List (Text × Text) :=
  Expander.textsIn { registry := some components }
    (document.sources.map fun s => (s.name, s.prepared))

/-! ## Known components -/

theorem Registry.contains_iff {r : Registry} {name : Text} :
    r.contains name ↔ Text.lower name ∈ r.sources.map Prod.fst := by
  rw [contains, source?, Keyed.isSome_find?_iff]

/-- Expanding the sources of components keeps their names. -/
theorem Registry.eq_of_expanded {raw components : Registry} (h : raw.expanded = .ok components) :
    components =
      { raw with sources := Expander.textsIn { registry := some raw } raw.sources } := by
  simp only [expanded, bind, Except.bind] at h
  split at h
  · cases h
  · next hsources =>
    cases h
    rw [Expander.eq_textsIn_of_expandSources hsources]

theorem Registry.contains_of_expanded {raw components : Registry}
    (h : raw.expanded = .ok components) (name : Text) :
    components.contains name = raw.contains name := by
  rw [Bool.eq_iff_iff, contains_iff, contains_iff, eq_of_expanded h, Expander.map_fst_textsIn]

theorem Registry.folder_of_addFiles {site : Site} {r raw : Registry} {paths : List Text}
    (h : addFiles site r paths = .ok raw) : raw.folder = r.folder := by
  induction paths generalizing r with
  | nil =>
    cases h
    rfl
  | cons path rest ih =>
    rw [addFiles] at h
    split at h
    · exact ih h
    · split at h
      · cases h
      · have hfolder := ih h
        exact hfolder

/-! ## What a unit holds -/

section Host

variable [TemplateLanguage]

open TemplateLanguage (Environment source?)

/-- Each call of a unit is one of a component that is known. -/
theorem contains_of_mem_calls {env : Environment} {raw components : Registry}
    {document : Document} {unit : CompiledUnit} (hexpanded : raw.expanded = .ok components)
    (hcompile : CompiledUnit.compile env components document = .ok unit) {call : Block × Nat}
    (h : call ∈ raw.calls ++ document.calls components) : components.contains call.1.name := by
  rcases List.mem_append.1 h with h | h
  · rw [Registry.contains_of_expanded hexpanded]
    exact Expander.knows_of_mem_callsIn (Registry.expandsAll hexpanded) h
  · exact Expander.knows_of_mem_callsIn (Document.expandsAll hcompile) h

namespace CompiledUnit

/-- Adds texts one after the other, each under its name. -/
def addTexts (env : Environment) : List (Text × Text) → Except Error Environment
  | [] => .ok env
  | (name, text) :: rest => do addTexts (← addTemplate env name text) rest

theorem addComponents_eq (folder : Text) (env : Environment) (sources : List (Text × Text)) :
    addComponents folder env sources =
      addTexts env (sources.map fun e => (Registry.templateName folder e.1, e.2)) := by
  induction sources generalizing env with
  | nil => rfl
  | cons entry rest ih => simp only [addComponents, List.map_cons, addTexts, ih]

theorem addTexts_of_addFiles {x : Expander} {env env' : Environment} {sources : List Source}
    (h : addFiles x env sources = .ok env') :
    addTexts env (x.textsIn (sources.map fun s => (s.name, s.prepared))) = .ok env' := by
  induction sources generalizing x env with
  | nil => exact h
  | cons source rest ih =>
    simp only [addFiles, bind, Except.bind] at h
    split at h
    · cases h
    · split at h
      · cases h
      · next henv =>
        simp only [List.map_cons, Expander.textsIn, addTexts, henv, bind, Except.bind]
        exact ih h

/-- A unit is made by adding the texts of the components, the function that renders them, and then
the texts of the document. -/
theorem exists_addTexts_of_compile {env : Environment} {components : Registry}
    {document : Document} {unit : CompiledUnit} (h : compile env components document = .ok unit) :
    ∃ held, addTexts env components.texts = .ok held ∧
      addTexts (TemplateLanguage.addFunction held Call.functionName
        (Component.function components.folder)) (document.texts components) =
          .ok unit.environment := by
  obtain ⟨held, hcomponents, hfiles, -⟩ := compile_eq_ok_iff.1 h
  rw [addComponents_eq] at hcomponents
  exact ⟨held, hcomponents, addTexts_of_addFiles hfiles⟩

variable [TemplateLanguage.Lawful]

open TemplateLanguage.Lawful

/-- The last text of a name counts before all others, and before what was held. -/
theorem source?_of_addTexts {env env' : Environment} {texts : List (Text × Text)}
    (h : addTexts env texts = .ok env') (name : Text) :
    source? env' name =
      ((texts.filter (·.1 = name)).getLast?.map Prod.snd).or (source? env name) := by
  induction texts generalizing env with
  | nil =>
    cases h
    rfl
  | cons entry rest ih =>
    obtain ⟨other, text⟩ := entry
    obtain ⟨added, hadded, hrest⟩ := exists_of_bind_eq_ok h
    rw [addTemplate_eq_ok_iff] at hadded
    rw [ih hrest, List.filter_cons]
    by_cases hname : other = name
    · rw [if_pos (by simpa using hname), List.getLast?_cons, ← hname,
        source?_addTemplate_self hadded]
      cases (rest.filter (·.1 = other)).getLast? <;> rfl
    · rw [if_neg (by simpa using hname), source?_addTemplate_of_ne hadded (Ne.symm hname)]

theorem source?_of_notMem {env env' : Environment} {texts : List (Text × Text)}
    (h : addTexts env texts = .ok env') {name : Text} (hname : name ∉ texts.map Prod.fst) :
    source? env' name = source? env name := by
  have hfilter : texts.filter (·.1 = name) = [] := by
    rw [List.filter_eq_nil_iff]
    intro entry hentry heq
    exact hname (of_decide_eq_true heq ▸ List.mem_map_of_mem hentry)
  rw [source?_of_addTexts h, hfilter]
  rfl

theorem isSome_source?_iff {env env' : Environment} {texts : List (Text × Text)}
    (h : addTexts env texts = .ok env') {name : Text} :
    (source? env' name).isSome ↔ name ∈ texts.map Prod.fst ∨ (source? env name).isSome := by
  by_cases hname : name ∈ texts.map Prod.fst
  · obtain ⟨entry, hentry, hentryName⟩ := List.mem_map.1 hname
    have hne : texts.filter (·.1 = name) ≠ [] :=
      List.ne_nil_of_mem (List.mem_filter.2 ⟨hentry, by simpa using hentryName⟩)
    rw [source?_of_addTexts h, List.getLast?_eq_some_getLast hne]
    simp only [Option.map_some, Option.some_or, Option.isSome_some, hname, true_or]
  · rw [source?_of_notMem h hname]
    simp [hname]

/-- A unit holds a template for each component. -/
theorem exists_lookup_of_contains {env : Environment} {components : Registry}
    {document : Document} {unit : CompiledUnit} (h : compile env components document = .ok unit)
    {name : Text} (hknown : components.contains name) :
    ∃ template, TemplateLanguage.lookup unit.environment
      (Registry.templateName components.folder name) = .ok template := by
  obtain ⟨held, hcomponents, hfiles⟩ := exists_addTexts_of_compile h
  obtain ⟨entry, hentry, hlower⟩ := List.mem_map.1 (Registry.contains_iff.1 hknown)
  have hmem : Registry.templateName components.folder name ∈ components.texts.map Prod.fst := by
    refine List.mem_map.2 ⟨_, List.mem_map_of_mem hentry, ?_⟩
    rw [Registry.templateName, Registry.templateName, hlower, Text.lower_lower]
  have hheld := (isSome_source?_iff hcomponents).2 (.inl hmem)
  rw [← source?_addFunction held Call.functionName] at hheld
  have hsome := (isSome_source?_iff hfiles).2 (.inr hheld)
  rw [source?, Option.isSome_map] at hsome
  cases hlookup : TemplateLanguage.lookup unit.environment
      (Registry.templateName components.folder name) with
  | error fault => simp [hlookup, Except.toOption] at hsome
  | ok template => exact ⟨template, rfl⟩

end CompiledUnit

/-! ## Calls of a unit that an engine compiles -/

namespace Engine

/-- Whatever an engine compiles, the literal that stands in a call denotes the lowered name of its
tag, and the unit holds a template for it in the components folder. So the function that is called
with that name renders that template. -/
theorem exists_template_of_mem_calls [TemplateLanguage.Lawful] {e : Engine}
    {created files : FileSystem} {document : Document} {unit : CompiledUnit}
    (he : e.LoadedFrom created) (h : e.compile files document = .ok unit) :
    ∃ raw components,
      (e.site (if e.isDebug then files else created)).componentSources = .ok raw ∧
      raw.expanded = .ok components ∧
      CompiledUnit.compile e.environment components document = .ok unit ∧
      components.folder = e.options.componentsFolder ∧
      ∀ call ∈ raw.calls ++ document.calls components,
        Call.functionName ++ '(' :: Text.quote (Text.lower call.1.name) <:+:
          Call.ofBlock call.2 call.1 ∧
        Text.Denotes (Text.quote (Text.lower call.1.name)) (Text.lower call.1.name) ∧
        ∃ template, TemplateLanguage.lookup unit.environment
            (components.folder ++ '/' :: Text.lower call.1.name) = .ok template ∧
          ∀ attributes named,
            Component.function components.folder (TemplateLanguage.lookup unit.environment)
                (Text.lower call.1.name) attributes named =
              Component.renderTemplate template attributes named := by
  obtain ⟨raw, components, hsources, hexpanded, hcompile⟩ := exists_components_of_compile he h
  have hfolder : components.folder = e.options.componentsFolder := by
    rw [Registry.eq_of_expanded hexpanded]
    exact Registry.folder_of_addFiles hsources
  refine ⟨raw, components, hsources, hexpanded, hcompile, hfolder, fun call hcall =>
    ⟨?_, Text.denotes_quote _, ?_⟩⟩
  · have hopening := Call.opening_infix_ofBlock call.2 call.1
    refine List.IsInfix.trans ?_ hopening
    rw [Call.opening, List.append_assoc, List.append_assoc, List.append_assoc]
    exact (List.prefix_append _ _).isInfix
  · have hknown := contains_of_mem_calls hexpanded hcompile hcall
    obtain ⟨template, htemplate⟩ := CompiledUnit.exists_lookup_of_contains hcompile hknown
    have hname : Registry.templateName components.folder (Text.lower call.1.name) =
        Registry.templateName components.folder call.1.name := by
      rw [Registry.templateName, Registry.templateName, Text.lower_lower]
    refine ⟨template, htemplate, fun attributes named => ?_⟩
    rw [Component.function, hname, htemplate]

end Engine

end Host

namespace Engine

/-- A file of the document calls both components. -/
theorem exists_template_of_mem_calls_cardDocument :
    cardEngine.LoadedFrom cardFiles ∧
      ∃ unit card icon, cardEngine.compile cardFiles cardDocument = .ok unit ∧
        TemplateLanguage.lookup unit.environment "components/card".toList = .ok card ∧
        TemplateLanguage.lookup unit.environment "components/icon".toList = .ok icon := by
  have he := loadedFrom_of_create create_cardFiles
  obtain ⟨unit, hcompile⟩ := exists_compile_cardDocument accepts_cardTexts
  obtain ⟨raw, components, hsources, hexpanded, -, hfolder, hcalls⟩ :=
    exists_template_of_mem_calls he hcompile
  obtain rfl : cardRegistry = raw := Except.ok.inj (componentSources_cardFiles.symm.trans hsources)
  obtain rfl : cardComponents = components :=
    Except.ok.inj (expanded_cardRegistry.symm.trans hexpanded)
  rw [callsIn_cardSources.2] at hcalls
  obtain ⟨-, -, card, hcard, -⟩ := hcalls (.ofSelfClosing cardTag, 2) (by simp)
  obtain ⟨-, -, icon, hicon, -⟩ := hcalls (.ofSelfClosing iconTag, 1) (by simp)
  exact ⟨he, unit, card, icon, hcompile, hcard, hicon⟩

end Engine

end ComponentTags
