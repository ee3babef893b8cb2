import Mathlib
import ComponentTags.Proofs.Document.Entry
import ComponentTags.Proofs.Engine.Shadowing

/-!
# Templates that are found and loaded

A document finds a template by the normalized form of a name that a source mentions. A compiled unit
holds the template under that form, but the source goes on loading it by the name as it is written,
and names are looked up as they are. So a template that was added for a reference can be loaded if
names are written in their normalized form. An entry whose layout is replaced still mentions the
layout that its comment names, which nothing loads any more.
-/

namespace ComponentTags

namespace Source

/-- The names of the templates that the template of a source loads when it is rendered: those in its
text, the layout that is put in front of it and the one that its own statement extends. -/
def loaded (s : Source) : List Text :=
  references s.text ++ s.injected.toList ++
    match s.directive with
    | some (.statement layout) => [layout]
    | _ => []

/-- A layout that a comment names is the one that is extended. -/
def KeepsComment (s : Source) : Prop :=
  ∀ written, s.directive = some (.comment written) → s.injected = some written

theorem keepsComment_ofText (name : Text) (path : Option Text) (kind : Kind) (text : Text) :
    (ofText name path kind text).KeepsComment := by
  intro written h
  rw [directive, ofText] at h
  simp [ofText, h]

/-- All that a source mentions is loaded but for a comment that is not kept. -/
theorem mem_loaded_of_mem_mentions {s : Source} {name : Text} (hm : name ∈ mentions s.text)
    (h : s.KeepsComment ∨ s.directive ≠ some (.comment name)) : name ∈ s.loaded := by
  rw [mentions, List.mem_append, ← directive] at hm
  rw [loaded, List.append_assoc, List.mem_append]
  refine hm.imp_right fun hlayout => ?_
  cases hd : s.directive with
  | none => simp [hd] at hlayout
  | some d =>
    obtain rfl : name = d.layout := by simpa [hd] using hlayout
    cases d with
    | statement layout => simp [Directive.layout]
    | comment layout =>
      have hkeeps := h.resolve_right (by simp [hd, Directive.layout])
      simp [hkeeps layout hd, Directive.layout]

end Source

namespace Site

variable {site : Site} {layout : Option Text} {target : Target} {d : Document}
  {p : Source → Prop}

/-! ## Sources of a document -/

theorem read_of_referenced? {name : Text} {source : Source}
    (h : site.referenced? name = some (.ok source)) :
    site.read .referenced name (site.pathOf name) = .ok source := by
  unfold referenced? at h
  dsimp only at h
  split at h
  · exact Option.some.inj h
  · cases h

section Preserved

variable (hread : ∀ kind name path s, site.read kind name path = .ok s → p s)
include hread

theorem forall_of_addShared {folder : Text} {found result : List Source} {paths : List Text}
    (h : ∀ t ∈ found, p t) (hresult : site.addShared folder found paths = .ok result) :
    ∀ t ∈ result, p t := by
  induction paths generalizing found with
  | nil =>
    cases hresult
    exact h
  | cons path paths ih =>
    rw [addShared] at hresult
    split at hresult
    · exact ih h hresult
    · split at hresult
      · exact ih h hresult
      · obtain ⟨source, hsource, hresult⟩ := exists_of_bind_eq_ok hresult
        have hone := List.forall_mem_singleton.2 (hread _ _ _ _ hsource)
        exact ih (List.forall_mem_append.2 ⟨h, hone⟩) hresult

theorem LayoutChain.forall_mem {name : Option Text} {chain : List Source}
    (h : LayoutChain site name chain) : ∀ t ∈ chain, p t := by
  induction h with
  | none => simp
  | some hsource _ ih =>
    have hone := List.forall_mem_singleton.2 (hread _ _ _ _ hsource)
    exact List.forall_mem_append.2 ⟨ih, hone⟩

theorem forall_of_primaryOf {entry : Source} {siblings : List Source}
    (h : site.primaryOf target = .ok (entry, siblings)) : ∀ t ∈ siblings, p t := by
  cases target with
  | text source =>
    cases h
    simp
  | named request extras =>
    obtain ⟨name, -, ⟨-, rfl⟩ | ⟨folder, recursive, -, hsiblings⟩⟩ := exists_of_primary extras h
    · simp
    · intro t ht
      obtain ⟨named, -, hsource⟩ := exists_of_mem_right (forall₂_of_mapM hsiblings) t ht
      exact hread _ _ _ _ hsource

theorem forall_of_extras {extras : List Text} {sources : List Source}
    (h : extras.mapM site.extra = .ok sources) : ∀ t ∈ sources, p t := by
  intro t ht
  obtain ⟨request, -, hextra⟩ := exists_of_mem_right (forall₂_of_mapM h) t ht
  unfold extra at hextra
  dsimp only at hextra
  split at hextra
  · exact hread _ _ _ _ hextra
  · cases hextra

/-- What holds of all sources that are read, and of the entry with its layout, holds of all sources
of a document. -/
theorem Stages.forall_sources (st : site.Stages layout target d)
    (hentry : p (site.withLayout layout st.entry)) : ∀ t ∈ d.sources, p t := by
  have hbase : ∀ t ∈ st.base, p t := by
    obtain ⟨added, hcollect, hsublist, -⟩ := Source.exists_collect_eq []
      (st.layouts ++ site.withLayout layout st.entry :: st.siblings ++ st.extras)
    intro t ht
    rw [st.base_eq_collect, hcollect, List.nil_append] at ht
    rcases List.mem_append.1 (hsublist.subset ht) with ht | ht
    · rcases List.mem_append.1 ht with ht | ht
      · exact (layoutChain_of_layouts st.layouts_eq).forall_mem hread t ht
      · rcases List.mem_cons.1 ht with rfl | ht
        · exact hentry
        · exact forall_of_primaryOf hread st.primary_eq t ht
    · exact forall_of_extras hread st.extras_eq t ht
  have hreferenced : ∀ name s, site.referenced? name = some (.ok s) → p s :=
    fun _ _ h => hread _ _ _ _ (read_of_referenced? h)
  have hfound := forall_of_discover hreferenced hbase st.found_eq
  have hshared := forall_of_addShared hread hfound st.withShared_eq
  exact forall_of_discover hreferenced hshared st.sources_eq

end Preserved

theorem keepsComment_of_read {kind : Source.Kind} {name path : Text} {s : Source}
    (h : site.read kind name path = .ok s) : s.KeepsComment := by
  unfold read at h
  split at h
  · cases h
  · cases h
    exact Source.keepsComment_ofText _ _ _ _

theorem keepsComment_of_primaryOf {entry : Source} {siblings : List Source}
    (h : site.primaryOf target = .ok (entry, siblings)) : entry.KeepsComment := by
  cases target with
  | text source =>
    cases h
    exact Source.keepsComment_ofText _ _ _ _
  | named request extras =>
    obtain ⟨name, hread, -⟩ := exists_of_primary extras h
    exact keepsComment_of_read hread

/-- Only the entry of a document can have a comment that another layout replaces. -/
theorem Stages.keepsComment (st : site.Stages layout target d) :
    ∀ s ∈ d.sources, s.KeepsComment ∨ layout.isSome ∧ s.kind = .entry := by
  refine st.forall_sources (fun _ _ _ _ h => .inl (keepsComment_of_read h)) ?_
  cases layout with
  | none => exact .inl (keepsComment_of_primaryOf st.primary_eq)
  | some name => exact .inr ⟨rfl, by simp [(of_primaryOf st.primary_eq).1]⟩

/-- A source of a document that was added for a reference: what loads it, and what a unit holds
under its name. -/
structure Loadable (site : Site) (layout : Option Text) (d : Document) (before : List Source)
    (s : Source) : Prop where
  /-- A source before it loads it by a name that is normalized to its name, or mentions it in a
  comment that the layout asked for replaces. -/
  mentioned : ∃ t ∈ before, ∃ written, site.normalize written = s.name ∧
    (written ∈ t.loaded ∨
      layout.isSome ∧ t.kind = .entry ∧ t.directive = some (.comment written))
  /-- Where its name is written as it is, and not in that comment, it is loaded by its very name. -/
  loaded : (∀ t ∈ before, ∀ written ∈ Source.mentions t.text,
      site.normalize written = s.name → written = s.name) →
    (layout.isSome → ∀ t ∈ before, t.kind = .entry → t.directive ≠ some (.comment s.name)) →
    ∃ t ∈ before, s.name ∈ t.loaded
  /-- A unit holds it, expanded, under its very name, whatever the language is. -/
  held : ∀ [TemplateLanguage] [TemplateLanguage.Lawful] env components unit,
    CompiledUnit.compile env components d = .ok unit →
      ∃ text, (s.name, text) ∈ d.texts components ∧
        TemplateLanguage.source? unit.environment s.name = some text

theorem held_of_mem [TemplateLanguage] [TemplateLanguage.Lawful]
    {env : TemplateLanguage.Environment} {components : Registry} {unit : CompiledUnit}
    (hd : Source.Distinct d.sources) (h : CompiledUnit.compile env components d = .ok unit)
    {s : Source} (hs : s ∈ d.sources) :
    ∃ text, (s.name, text) ∈ d.texts components ∧
      TemplateLanguage.source? unit.environment s.name = some text := by
  have hname : s.name ∈ (d.texts components).map Prod.fst := by
    rw [Document.texts, Expander.map_fst_textsIn, List.map_map]
    exact List.mem_map_of_mem hs
  obtain ⟨⟨-, text⟩, hmem, rfl⟩ := List.mem_map.1 hname
  exact ⟨text, hmem, CompiledUnit.source?_of_mem_texts h hd hmem⟩

/-- What is found for a reference is mentioned before and held by units under its name. It is loaded
if the mention spells the name as it is normalized and is in force. -/
theorem loadable_of_referenced (h : site.assembleFor layout target = .ok d)
    {before after : List Source} {s : Source} (hsplit : d.sources = before ++ s :: after)
    (hk : s.kind = .referenced) : site.Loadable layout d before s := by
  obtain ⟨st⟩ := nonempty_stages h
  obtain ⟨_, _, _, hadded⟩ := st.exists_added
  obtain ⟨t, ht, hmentioned⟩ := hadded.justified before s after hsplit hk
  obtain ⟨written, hmention, hname⟩ := List.mem_map.1 hmentioned
  have hkeeps := st.keepsComment t (by simp [hsplit, ht])
  refine ⟨⟨t, ht, written, hname, ?_⟩, fun hplain hkept => ⟨t, ht, ?_⟩,
    fun {_} {_} _ _ _ hcompile => ?_⟩
  · -- only a comment can be mentioned and not loaded, and only that of the entry
    by_cases hcomment : t.directive = some (.comment written)
    · rcases hkeeps with hkeeps | ⟨hlayout, hentry⟩
      · exact .inl (Source.mem_loaded_of_mem_mentions hmention (.inl hkeeps))
      · exact .inr ⟨hlayout, hentry, hcomment⟩
    · exact .inl (Source.mem_loaded_of_mem_mentions hmention (.inr hcomment))
  · obtain rfl := hplain t ht written hmention hname
    refine Source.mem_loaded_of_mem_mentions hmention (hkeeps.imp_right ?_)
    rintro ⟨hlayout, hentry⟩
    exact hkept hlayout t ht hentry
  · exact held_of_mem hadded.distinct hcompile (by simp [hsplit])

/-- A site with templates that are referred to in two spellings, and an entry with a layout of its
own. -/
def linkedSite : Site :=
  .ofFiles [("page.tmpl", "\x7b% include \"./part\" %\x7d"),
    ("list.tmpl", "\x7b% include \"part\" %\x7d"), ("part.tmpl", "P"),
    ("index.tmpl", "\x7b% include \"row\" %\x7d"), ("row.tmpl", "\x7b# extends \"./base\" #\x7d"),
    ("note.tmpl", "\x7b# extends \"base\" #\x7d"), ("base.tmpl", ""), ("wide.tmpl", "")]

/-- A file in the root of the site, as it is read. -/
def linkedFile (kind : Source.Kind) (name text : String) : Source :=
  .ofText name.toList (some ("/" ++ name ++ ".tmpl").toList) kind text.toList

def linkedPage : Source :=
  linkedFile .entry "page" "\x7b% include \"./part\" %\x7d"

def linkedList : Source :=
  linkedFile .entry "list" "\x7b% include \"part\" %\x7d"

def linkedPart : Source :=
  linkedFile .referenced "part" "P"

def linkedIndex : Source :=
  linkedFile .entry "index" "\x7b% include \"row\" %\x7d"

def linkedRow : Source :=
  linkedFile .referenced "row" "\x7b# extends \"./base\" #\x7d"

def linkedBase : Source :=
  linkedFile .referenced "base" ""

def linkedWide : Source :=
  linkedFile .layout "wide" ""

/-- The note with the layout that is asked for. -/
def linkedNote : Source :=
  { linkedFile .entry "note" "\x7b# extends \"base\" #\x7d" with injected := some "wide".toList }

theorem assembleFor_linkedSite :
    linkedSite.assembleFor none (.named "page".toList []) =
        .ok ⟨"page".toList, [linkedPage, linkedPart]⟩ ∧
      linkedSite.assembleFor none (.named "list".toList []) =
        .ok ⟨"list".toList, [linkedList, linkedPart]⟩ ∧
      linkedSite.assembleFor none (.named "index".toList []) =
        .ok ⟨"index".toList, [linkedIndex, linkedRow, linkedBase]⟩ ∧
      linkedSite.assembleFor (some "wide".toList) (.named "note".toList []) =
        .ok ⟨"note".toList, [linkedWide, linkedNote, linkedBase]⟩ :=
  ⟨by cbv, by cbv, by cbv, by cbv⟩

theorem loaded_linkedSite :
    linkedPage.loaded = ["./part".toList] ∧ linkedList.loaded = ["part".toList] ∧
      linkedIndex.loaded = ["row".toList] ∧ linkedRow.loaded = ["./base".toList] ∧
      linkedWide.loaded = [] ∧ linkedNote.loaded = ["wide".toList] :=
  ⟨by cbv, by cbv, by cbv, by cbv, by cbv, by cbv⟩

/-- A page goes on loading a part by the name that it is written with, and a unit holds nothing of
its own under that. A row extends its layout by the name in its comment in the same way. Nothing
loads the layout that a note's own comment names if another layout is asked for. -/
theorem not_loaded_linkedSite :
    (∃ d, linkedSite.assembleFor none (.named "page".toList []) = .ok d ∧
      d.sources = [linkedPage, linkedPart] ∧ linkedPart.kind = .referenced ∧
      linkedPart.name ∉ linkedPage.loaded ∧ "./part".toList ∈ linkedPage.loaded ∧
      ∀ [TemplateLanguage] [TemplateLanguage.Lawful] env unit,
        CompiledUnit.compile env { folder := "components".toList } d = .ok unit →
          TemplateLanguage.source? unit.environment "./part".toList =
            TemplateLanguage.source? env "./part".toList) ∧
    (∃ d, linkedSite.assembleFor none (.named "index".toList []) = .ok d ∧
      d.sources = [linkedIndex, linkedRow, linkedBase] ∧ linkedBase.kind = .referenced ∧
      linkedBase.name ∉ linkedIndex.loaded ∧ linkedBase.name ∉ linkedRow.loaded) ∧
    ∃ d, linkedSite.assembleFor (some "wide".toList) (.named "note".toList []) = .ok d ∧
      d.sources = [linkedWide, linkedNote, linkedBase] ∧ linkedBase.kind = .referenced ∧
      linkedBase.name ∉ linkedWide.loaded ∧ linkedBase.name ∉ linkedNote.loaded := by
  obtain ⟨hpage, -, hindex, hnote⟩ := assembleFor_linkedSite
  obtain ⟨hpageLoaded, -, hindexLoaded, hrowLoaded, hwideLoaded, hnoteLoaded⟩ := loaded_linkedSite
  rw [hpageLoaded, hindexLoaded, hrowLoaded, hwideLoaded, hnoteLoaded]
  refine ⟨⟨_, hpage, rfl, rfl, by decide, by decide, fun {_} {_} env unit hcompile => ?_⟩,
    ⟨_, hindex, rfl, rfl, by decide, by decide⟩, _, hnote, rfl, rfl, by decide, by decide⟩
  have hname : "./part".toList ∉ (Document.texts { folder := "components".toList }
      ⟨"page".toList, [linkedPage, linkedPart]⟩).map Prod.fst := by
    rw [Document.texts, Expander.map_fst_textsIn]
    decide
  obtain ⟨held, hheld, hsame⟩ := CompiledUnit.source?_of_notMem_names hcompile hname
  exact hsame.trans (CompiledUnit.source?_of_notMem hheld (by simp [Registry.texts]))

theorem loadable_of_referenced_linkedSite :
    ∃ d, linkedSite.assembleFor none (.named "list".toList []) = .ok d ∧
      d.sources = [linkedList, linkedPart] ∧ linkedPart.kind = .referenced ∧
      linkedPart.name ∈ linkedList.loaded ∧ linkedSite.Loadable none d [linkedList] linkedPart := by
  obtain ⟨-, hlist, -⟩ := assembleFor_linkedSite
  obtain ⟨-, hlistLoaded, -⟩ := loaded_linkedSite
  rw [hlistLoaded]
  exact ⟨_, hlist, rfl, rfl, by decide, loadable_of_referenced hlist rfl rfl⟩

end Site
end ComponentTags
