import Mathlib
import ComponentTags.Engine
import ComponentTags.Proofs.Expansion.Calls
import ComponentTags.Proofs.Expansion.Stages
import ComponentTags.Proofs.Template.Lawful

/-!
# Identifiers of a unit

A compiled unit holds the calls of two expanders: one has gone over the sources of all components
when they were loaded, another one goes over the files of the document, and both count from one. So
a call of a component and a call of the document are told apart by the names of their blocks alone,
and captured bodies are not told apart at all.
-/

namespace ComponentTags

namespace Call

/-- The identifiers of calls. -/
def identifiers (calls : List (Block × Nat)) : List Text :=
  calls.map fun call => identifier call.1.name call.2

/-- The variables of the calls that capture a body. -/
def bodyVariables (calls : List (Block × Nat)) : List Text :=
  (calls.filter (·.1.hasEnd)).map fun call => bodyVariable call.2

end Call

namespace Expander

theorem NumberedFrom.pairwise {first : Nat} {calls : List (Block × Nat)}
    (h : NumberedFrom first calls) : calls.Pairwise fun a b => a.2 ≠ b.2 := by
  have hnodup : (calls.map Prod.snd).Nodup := h ▸ List.nodup_range'
  exact List.pairwise_map.1 hnodup

/-- Two lists of calls that are numbered each have names that tell a number in common exactly if
some call of the one and some call of the other have. -/
theorem nodup_map_append_iff {f : Block × Nat → Text} (hf : ∀ a b, f a = f b → a.2 = b.2)
    {first first' : Nat} {calls calls' : List (Block × Nat)} (h : NumberedFrom first calls)
    (h' : NumberedFrom first' calls') (p : Block × Nat → Bool) :
    (((calls ++ calls').filter p).map f).Nodup ↔
      ∀ a ∈ calls, ∀ b ∈ calls', p a → p b → f a ≠ f b := by
  have hnodup {calls : List (Block × Nat)} {first : Nat} (h : NumberedFrom first calls) :
      ((calls.filter p).map f).Nodup :=
    List.pairwise_map.2 ((h.pairwise.filter p).imp fun hne heq => hne (hf _ _ heq))
  rw [List.filter_append, List.map_append, List.nodup_append]
  simp only [hnodup h, hnodup h', true_and, List.forall_mem_map, List.mem_filter]
  grind

end Expander

/-! ## The calls of a unit -/

/-- The calls in the sources of components, which one expander goes over. -/
def Registry.calls (raw : Registry) : List (Block × Nat) :=
  Expander.callsIn { registry := some raw } (raw.sources.map Prod.snd)

/-- The calls in the files of a document, which one expander goes over. -/
def Document.calls (components : Registry) (document : Document) : List (Block × Nat) :=
  Expander.callsIn { registry := some components } (document.sources.map Source.prepared)

open Expander (NumberedFrom)

theorem Registry.expandsAll {raw components : Registry} (h : raw.expanded = .ok components) :
    Expander.ExpandsAll { registry := some raw } (raw.sources.map Prod.snd) := by
  simp only [Registry.expanded, bind, Except.bind] at h
  cases hs : Registry.expandSources { registry := some raw } raw.sources with
  | error e => simp [hs] at h
  | ok expanded => exact Expander.expandsAll_of_expandSources hs

theorem Registry.numberedFrom_calls {raw components : Registry}
    (h : raw.expanded = .ok components) : NumberedFrom 1 raw.calls :=
  Expander.numberedFrom_callsIn (Registry.expandsAll h)

/-- The component sources of a site, as the files hold them. -/
def Site.componentSources (site : Site) : Except Error Registry :=
  Registry.addFiles site { folder := site.options.componentsFolder }
    (site.templateFiles (Path.join site.root site.options.componentsFolder) true)

theorem Registry.load_eq_ok_iff {site : Site} {components : Registry} :
    Registry.load site = .ok components ↔
      ∃ raw, site.componentSources = .ok raw ∧ raw.expanded = .ok components := by
  have hload : Registry.load site = site.componentSources.bind Registry.expanded := rfl
  rw [hload]
  cases site.componentSources <;> simp [Except.bind]

section Host

variable [TemplateLanguage]

theorem Document.expandsAll {env : TemplateLanguage.Environment} {components : Registry}
    {document : Document} {unit : CompiledUnit}
    (h : CompiledUnit.compile env components document = .ok unit) :
    Expander.ExpandsAll { registry := some components }
      (document.sources.map Source.prepared) := by
  obtain ⟨_, -, hfiles, -⟩ := CompiledUnit.compile_eq_ok_iff.1 h
  exact Expander.expandsAll_of_addFiles hfiles

theorem Document.numberedFrom_calls {env : TemplateLanguage.Environment} {components : Registry}
    {document : Document} {unit : CompiledUnit}
    (h : CompiledUnit.compile env components document = .ok unit) :
    NumberedFrom 1 (document.calls components) :=
  Expander.numberedFrom_callsIn (Document.expandsAll h)

namespace Engine

/-- The components of the engine are those of the files, expanded. -/
def LoadedFrom (e : Engine) (files : FileSystem) : Prop :=
  Registry.load (e.site files) = .ok e.components

theorem create_of_load {files : FileSystem} {root : Text} {options : Options}
    {components : Registry} (h : Registry.load { files, root, options } = .ok components) :
    create files root options =
      .ok { root, options, components, isDebug := options.debug } := by
  rw [create, h]
  rfl

theorem loadedFrom_of_create {files : FileSystem} {root : Text} {options : Options} {e : Engine}
    (h : create files root options = .ok e) : e.LoadedFrom files := by
  simp only [create, bind, Except.bind] at h
  split at h
  · cases h
  · next hl =>
    cases h
    exact hl

theorem compile_of_not_debug {e : Engine} (h : e.isDebug = false) (files : FileSystem)
    (document : Document) : e.compile files document =
      CompiledUnit.compile e.environment e.components document := by
  simp only [compile, h, Bool.false_eq_true, if_false, bind, Except.bind]

/-- In debug mode the components are loaded anew, else they are those of the engine. -/
theorem exists_components_of_compile {e : Engine} {created files : FileSystem}
    {document : Document} {unit : CompiledUnit} (he : e.LoadedFrom created)
    (h : e.compile files document = .ok unit) :
    ∃ raw components,
      (e.site (if e.isDebug then files else created)).componentSources = .ok raw ∧
      raw.expanded = .ok components ∧
      CompiledUnit.compile e.environment components document = .ok unit := by
  cases hd : e.isDebug with
  | false =>
    rw [compile_of_not_debug hd] at h
    obtain ⟨raw, hraw, hexpanded⟩ := Registry.load_eq_ok_iff.1 he
    exact ⟨raw, e.components, by simpa using hraw, hexpanded, h⟩
  | true =>
    simp only [compile, hd, if_true, bind, Except.bind] at h
    split at h
    · cases h
    · next components hload =>
      obtain ⟨raw, hraw, hexpanded⟩ := Registry.load_eq_ok_iff.1 hload
      exact ⟨raw, components, by simpa using hraw, hexpanded, h⟩

/-- The calls of a unit that an engine compiles. Those of the components are numbered from one, and
so are those of the document. So identifiers are distinct exactly if no call of a component and no
call of the document agree in number and lowered name, and the variables of bodies are exactly if
no two such calls with a body agree in number. -/
theorem nodup_identifiers_iff {e : Engine} {created files : FileSystem} {document : Document}
    {unit : CompiledUnit} (he : e.LoadedFrom created) (h : e.compile files document = .ok unit) :
    ∃ raw components,
      (e.site (if e.isDebug then files else created)).componentSources = .ok raw ∧
      raw.expanded = .ok components ∧
      CompiledUnit.compile e.environment components document = .ok unit ∧
      NumberedFrom 1 raw.calls ∧ NumberedFrom 1 (document.calls components) ∧
      ((Call.identifiers (raw.calls ++ document.calls components)).Nodup ↔
        ∀ a ∈ raw.calls, ∀ b ∈ document.calls components, a.2 = b.2 →
          Text.lower a.1.name ≠ Text.lower b.1.name) ∧
      ((Call.bodyVariables (raw.calls ++ document.calls components)).Nodup ↔
        ∀ a ∈ raw.calls, ∀ b ∈ document.calls components, a.1.hasEnd → b.1.hasEnd →
          a.2 ≠ b.2) := by
  obtain ⟨raw, components, hsources, hexpanded, hcompile⟩ := exists_components_of_compile he h
  have hraw := Registry.numberedFrom_calls hexpanded
  have hdocument := Document.numberedFrom_calls hcompile
  refine ⟨raw, components, hsources, hexpanded, hcompile, hraw, hdocument, ?_, ?_⟩
  · have hiff := Expander.nodup_map_append_iff (f := fun call => Call.identifier call.1.name call.2)
      (fun _ _ heq => (Call.identifier_inj.1 heq).2) hraw hdocument fun _ => true
    rw [List.filter_eq_self.2 (by simp)] at hiff
    rw [Call.identifiers, hiff]
    simp only [ne_eq, Call.identifier_inj, not_and, forall_const]
    grind
  · rw [Call.bodyVariables, Expander.nodup_map_append_iff
      (fun _ _ heq => Call.bodyVariable_injective heq) hraw hdocument]
    simp only [ne_eq, Call.bodyVariable_injective.eq_iff]

end Engine

end Host

namespace Engine

/-! ## A component that uses a component -/

/-- A folder of two components, of which the first uses the second. -/
def cardFiles : FileSystem where
  top := .folder [("components".toList, .folder
    [("Card.tmpl".toList, .file (some "<Icon/>".toList)),
      ("Icon.tmpl".toList, .file (some "[\x7b\x7b id \x7d\x7d]".toList))])]

def cardOptions : Options where
  extension := ".tmpl".toList
  sharedFolder := "shared".toList
  componentsFolder := "components".toList
  debug := false
  autoescape := true
  exclude := []
  pattern? := Glob.accepts?

/-- The source of the second component, which outputs its identifier. -/
def iconText : Text :=
  "[\x7b\x7b id \x7d\x7d]".toList

def cardRegistry : Registry :=
  { folder := "components".toList
    sources := [("card".toList, "<Icon/>".toList), ("icon".toList, iconText)] }

def iconTag : Tag :=
  ⟨"Icon".toList, .selfClosing, [], ⟨0, 7⟩, 1⟩

def iconCall : Text :=
  "\x7b\x7b component(\"icon\", \x7b\x7d, id=\"icon-1\", ".toList ++
    "self_closing=true, is_end=false) \x7d\x7d".toList

def cardComponents : Registry :=
  { folder := "components".toList
    sources := [("card".toList, iconCall), ("icon".toList, iconText)] }

def cardEngine [TemplateLanguage] : Engine :=
  { root := ['/'], options := cardOptions, components := cardComponents, isDebug := false }

theorem leaves_iconText : Block.leaves iconText = .ok [] :=
  Block.leaves_of_next?_none (by cbv)

theorem leaves_iconCall : Block.leaves iconCall = .ok [] :=
  Block.leaves_of_next?_none (by cbv)

theorem expand_iconSource (r : Registry) (h : r.contains iconTag.name) :
    Expander.expand { registry := some r } "<Icon/>".toList =
        ⟨{ registry := some r, issued := 1 }, iconCall, .ok 1⟩ ∧
      Expander.calls { registry := some r } "<Icon/>".toList =
        [(.ofSelfClosing iconTag, 1)] := by
  have hlist : Tag.list "<Icon/>".toList = .ok [iconTag] :=
    Tag.listOfTokens_some (by cbv) (Tag.listOfTokens_none rfl)
  have hleaves : Block.leaves "<Icon/>".toList = .ok [.ofSelfClosing iconTag] := by
    rw [Block.leaves, hlist]
    rfl
  have hsplice : Text.splice "<Icon/>".toList 0
      (Expander.replacements 1 [.ofSelfClosing iconTag]) = iconCall := by cbv
  have hknown : ∀ block ∈ [Block.ofSelfClosing iconTag],
      Expander.knows { registry := some r } block.name := by
    simpa [Expander.knows, Block.ofSelfClosing] using h
  have hpass := Expander.pass_of_known _ "<Icon/>".toList hknown
  rw [hsplice] at hpass
  exact Expander.expand_of_pass hleaves (by simp) hpass leaves_iconCall

theorem expanded_cardRegistry : cardRegistry.expanded = .ok cardComponents := by
  have hcard := (expand_iconSource cardRegistry (by decide)).1
  have hicon := Expander.expand_of_done { registry := some cardRegistry, issued := 1 }
    leaves_iconText
  exact Registry.expanded_of_expandSources
    (Registry.expandSources_cons hcard (Registry.expandSources_cons hicon rfl))

theorem componentSources_cardFiles [TemplateLanguage] :
    (cardEngine.site cardFiles).componentSources = .ok cardRegistry := by
  cbv

theorem create_cardFiles [TemplateLanguage] :
    create cardFiles ['/'] cardOptions = .ok cardEngine :=
  create_of_load <|
    Registry.load_eq_ok_iff.2 ⟨cardRegistry, componentSources_cardFiles, expanded_cardRegistry⟩

def pageSource : Text :=
  "<Icon/><Card/>".toList

/-- A document that uses both components. -/
def cardDocument : Document :=
  { entry := "page".toList
    sources := [⟨"page".toList, none, pageSource, .entry, none⟩] }

def cardTag : Tag :=
  ⟨"Card".toList, .selfClosing, [], ⟨7, 14⟩, 1⟩

def pageText : Text :=
  iconCall ++ "\x7b\x7b component(\"card\", \x7b\x7d, id=\"card-2\", ".toList ++
    "self_closing=true, is_end=false) \x7d\x7d".toList

theorem expand_pageSource :
    Expander.expand { registry := some cardComponents } pageSource =
        ⟨{ registry := some cardComponents, issued := 2 }, pageText, .ok 1⟩ ∧
      Expander.calls { registry := some cardComponents } pageSource =
        [(.ofSelfClosing iconTag, 1), (.ofSelfClosing cardTag, 2)] := by
  have hfirst : Tag.next? (Token.list pageSource) =
      .ok (some (iconTag, (Token.list pageSource).drop 3)) := by cbv
  have hsecond : Tag.next? ((Token.list pageSource).drop 3) =
      .ok (some (cardTag, [])) := by cbv
  have hlist : Tag.list pageSource = .ok [iconTag, cardTag] :=
    Tag.listOfTokens_some hfirst (Tag.listOfTokens_some hsecond (Tag.listOfTokens_none rfl))
  have hleaves : Block.leaves pageSource =
      .ok [.ofSelfClosing iconTag, .ofSelfClosing cardTag] := by
    rw [Block.leaves, hlist]
    rfl
  have hdone : Block.leaves pageText = .ok [] := Block.leaves_of_next?_none (by cbv)
  exact Expander.expand_of_pass hleaves (by simp) (by cbv) hdone

/-- The texts that a unit of the document is made of. -/
def cardTexts : List Text :=
  [iconCall, iconText, pageText]

/-- The document compiles in every language that accepts its texts. -/
theorem exists_compile_cardDocument [TemplateLanguage]
    (h : ∀ text ∈ cardTexts, TemplateLanguage.Accepts text) :
    ∃ unit, cardEngine.compile cardFiles cardDocument = .ok unit := by
  rw [cardTexts] at h
  simp only [List.forall_mem_cons] at h
  obtain ⟨hcallAccepted, hiconAccepted, hpageAccepted, -⟩ := h
  obtain ⟨env, hcard⟩ := CompiledUnit.exists_addTemplate hcallAccepted cardEngine.environment
    (Registry.templateName cardComponents.folder "card".toList)
  obtain ⟨env', hicon⟩ := CompiledUnit.exists_addTemplate hiconAccepted env
    (Registry.templateName cardComponents.folder "icon".toList)
  obtain ⟨env'', hpage⟩ := CompiledUnit.exists_addTemplate hpageAccepted
    (TemplateLanguage.addFunction env' Call.functionName
      (Component.function cardComponents.folder)) "page".toList
  have hcomponents := (CompiledUnit.addComponents_cons hcard _).trans
    (CompiledUnit.addComponents_cons hicon [])
  have hfiles := CompiledUnit.addFiles_cons ⟨"page".toList, none, pageSource, .entry, none⟩
    expand_pageSource.1 hpage []
  refine ⟨⟨env'', cardDocument.entry, cardDocument.names⟩, ?_⟩
  rw [compile_of_not_debug rfl]
  exact CompiledUnit.compile_eq_ok_iff.2 ⟨env', hcomponents, hfiles, rfl, rfl⟩

/-- The small language accepts them. -/
theorem accepts_cardTexts : ∀ text ∈ cardTexts, TemplateLanguage.Accepts text := by
  have hread : ∀ text ∈ cardTexts, (Template.read? text).isSome := by decide +kernel
  exact fun text htext => Template.accepts_of_isSome_read? (hread text htext)

theorem callsIn_cardSources :
    cardRegistry.calls = [(.ofSelfClosing iconTag, 1)] ∧
      cardDocument.calls cardComponents =
        [(.ofSelfClosing iconTag, 1), (.ofSelfClosing cardTag, 2)] := by
  obtain ⟨hcard, hcalls⟩ := expand_iconSource cardRegistry (by decide)
  have hicon := Expander.calls_of_done { registry := some cardRegistry, issued := 1 }
    leaves_iconText
  constructor
  · show Expander.calls { registry := some cardRegistry } "<Icon/>".toList ++
      (Expander.calls (Expander.expand { registry := some cardRegistry }
        "<Icon/>".toList).expander iconText ++ []) = _
    rw [hcalls, hcard, hicon]
    rfl
  · show Expander.calls { registry := some cardComponents } pageSource ++ [] = _
    rw [expand_pageSource.2]
    rfl

/-- An engine made from a folder compiles a document in every language that accepts its templates,
and the call of a component and a call of the document have the same identifier. -/
theorem not_nodup_identifiers_cardDocument :
    (∀ [TemplateLanguage], create cardFiles ['/'] cardOptions = .ok cardEngine ∧
      cardRegistry.expanded = .ok cardEngine.components ∧
      ((∀ text ∈ cardTexts, TemplateLanguage.Accepts text) →
        ∃ unit, cardEngine.compile cardFiles cardDocument = .ok unit) ∧
      ¬ (Call.identifiers
        (cardRegistry.calls ++ cardDocument.calls cardEngine.components)).Nodup) ∧
    ∃ unit, cardEngine.compile cardFiles cardDocument = .ok unit := by
  refine ⟨fun {_} => ⟨create_cardFiles, expanded_cardRegistry, exists_compile_cardDocument, ?_⟩,
    exists_compile_cardDocument accepts_cardTexts⟩
  rw [callsIn_cardSources.1, show cardEngine.components = cardComponents from rfl,
    callsIn_cardSources.2]
  intro h
  have hne := List.rel_of_pairwise_cons h List.mem_cons_self
  exact hne rfl

theorem nodup_identifiers_iff_cardDocument :
    cardEngine.LoadedFrom cardFiles ∧
      (∃ unit, cardEngine.compile cardFiles cardDocument = .ok unit) ∧
      (Call.bodyVariables (cardRegistry.calls ++ cardDocument.calls cardComponents)).Nodup := by
  have he := loadedFrom_of_create create_cardFiles
  obtain ⟨unit, hcompile⟩ := exists_compile_cardDocument accepts_cardTexts
  obtain ⟨raw, components, hsources, hexpanded, -, -, -, -, hbodies⟩ :=
    nodup_identifiers_iff he hcompile
  obtain rfl : cardRegistry = raw := Except.ok.inj (componentSources_cardFiles.symm.trans hsources)
  obtain rfl : cardComponents = components :=
    Except.ok.inj (expanded_cardRegistry.symm.trans hexpanded)
  refine ⟨he, ⟨unit, hcompile⟩, hbodies.2 ?_⟩
  -- the only call of the components captures no body
  intro a ha b hb hend
  rw [callsIn_cardSources.1, List.mem_singleton] at ha
  subst ha
  cases hend

end Engine

end ComponentTags
