import Mathlib
import ComponentTags.Proofs.Document.Closure
import ComponentTags.Proofs.Document.Files

/-!
# The order of a document

A document has its sources in sections, one for each kind, but for references: those of shared
fragments come after them. No two sources agree in name, and of everything that is collected for a
document only what comes after a source of its name is left out.
-/

namespace ComponentTags

/-- Sources in sections, each of one kind. -/
structure Sections where
  layouts : List Source
  entry : List Source
  siblings : List Source
  extras : List Source
  referenced : List Source
  shared : List Source
  /-- Sources that are there for references of shared fragments. -/
  later : List Source
  layout_kind : ∀ s ∈ layouts, s.kind = .layout
  entry_kind : ∀ s ∈ entry, s.kind = .entry
  entry_length : entry.length ≤ 1
  sibling_kind : ∀ s ∈ siblings, s.kind = .sibling
  extra_kind : ∀ s ∈ extras, s.kind = .extra
  referenced_kind : ∀ s ∈ referenced, s.kind = .referenced
  shared_kind : ∀ s ∈ shared, s.kind = .shared
  later_kind : ∀ s ∈ later, s.kind = .referenced

def Sections.sources (x : Sections) : List Source :=
  x.layouts ++ x.entry ++ x.siblings ++ x.extras ++ x.referenced ++ x.shared ++ x.later

/-- A source stands in the section of its kind. -/
theorem Sections.mem_of_kind (x : Sections) {s : Source} (hs : s ∈ x.sources) :
    (s.kind = .sibling → s ∈ x.siblings) ∧ (s.kind = .shared → s ∈ x.shared) := by
  simp only [sources, List.mem_append] at hs
  obtain (((((hs | hs) | hs) | hs) | hs) | hs) | hs := hs
  · simp [x.layout_kind s hs]
  · simp [x.entry_kind s hs]
  · simp [x.sibling_kind s hs, hs]
  · simp [x.extra_kind s hs]
  · simp [x.referenced_kind s hs]
  · simp [x.shared_kind s hs, hs]
  · simp [x.later_kind s hs]

namespace Source

/-- The sources are files, in the order of their paths. -/
def InPathOrder (sources : List Source) : Prop :=
  ∃ paths : List Text, sources.map Source.path = paths.map some ∧
    paths.Pairwise fun a b => Path.le a b

theorem FollowPaths.inPathOrder {sources : List Source} {paths : List Text}
    (h : FollowPaths sources paths) (hpaths : paths.Pairwise fun a b => Path.le a b) :
    InPathOrder sources := by
  obtain ⟨own, hown, hsources⟩ := h
  exact ⟨own, hsources, hpaths.sublist hown⟩

end Source

namespace Site

open Source (isAmong Distinct FollowPaths InPathOrder)

variable {site : Site}

/-- The sections of a document that went through the given stages. -/
theorem Stages.exists_sections {layout : Option Text} {target : Target} {d : Document}
    (st : site.Stages layout target d) :
    ∃ parts : Sections, d.sources = parts.sources ∧
      parts.layouts = st.layouts.eraseDupsBy Source.agree ∧
      FollowPaths parts.siblings (site.folderFiles target) ∧ InPathOrder parts.siblings ∧
      FollowPaths parts.shared (site.templateFiles site.sharedFolder true) ∧
      InPathOrder parts.shared := by
  obtain ⟨entry, siblings, extras, hown⟩ := st.exists_own
  obtain ⟨referenced, shared, later, hadded⟩ := st.exists_added
  refine ⟨{
    layouts := st.layouts.eraseDupsBy Source.agree, entry, siblings, extras, referenced, shared,
    later
    layout_kind := hown.layout_kind
    entry_kind := hown.entry_kind
    entry_length := hown.entry_length
    sibling_kind := hown.sibling_kind
    extra_kind := hown.extra_kind
    referenced_kind := hadded.referenced_kind
    shared_kind := hadded.shared_kind
    later_kind := hadded.later_kind }, ?_, rfl, hown.followPaths, ?_, hadded.followPaths, ?_⟩
  · rw [hadded.sources_eq, hown.base_eq]
    rfl
  · exact hown.followPaths.inPathOrder (pairwise_folderFiles site target)
  · exact hadded.followPaths.inPathOrder (pairwise_templateFiles site _ _)

/-- What the base of a document offers a name for is in the document. -/
theorem Stages.isAmong_of_mem {layout : Option Text} {target : Target} {d : Document}
    (st : site.Stages layout target d) {s : Source}
    (hs : s ∈ st.layouts ++ st.entry :: st.siblings ++ st.extras) : isAmong d.sources s.name := by
  obtain ⟨_, _, _, hadded⟩ := st.exists_added
  refine Source.isAmong_mono ?_ (st.isAmong_base hs)
  rw [hadded.sources_eq, List.append_assoc, List.append_assoc]
  exact List.subset_append_left _ _

/-- The sources of a document come in sections and differ in name. The layouts are those of the
chain that starts at the layout asked for or declared, siblings and shared fragments come in the
order of their paths, and every name that is collected is there. -/
theorem ordered_and_distinct {layout : Option Text} {target : Target} {d : Document}
    (h : site.assembleFor layout target = .ok d) :
    Distinct d.sources ∧
    ∃ entry siblings chain,
      site.primaryOf target = .ok (entry, siblings) ∧
      site.LayoutChain (layout.or (entry.directive.map Directive.layout)) chain ∧
      (∃ parts : Sections, d.sources = parts.sources ∧
        parts.layouts = chain.eraseDupsBy Source.agree ∧
        FollowPaths parts.siblings (site.folderFiles target) ∧ InPathOrder parts.siblings ∧
        FollowPaths parts.shared (site.templateFiles site.sharedFolder true) ∧
        InPathOrder parts.shared) ∧
      (∀ s ∈ chain, isAmong d.sources s.name) ∧
      d.entry = entry.name ∧ isAmong d.sources entry.name ∧
      (∀ path ∈ site.folderFiles target, ∀ name,
        TemplateName.ofPath? site.root site.options.extension path = some name →
        isAmong d.sources name) ∧
      (∀ request ∈ target.extras, isAmong d.sources (site.normalize request)) ∧
      (∀ path ∈ site.templateFiles site.sharedFolder true, ∀ name,
        TemplateName.ofPath? site.sharedFolder site.options.extension path = some name →
        isAmong d.sources name) ∧
      (site.files.HasFileNames →
        (∀ path ∈ site.folderFiles target,
          (TemplateName.ofPath? site.root site.options.extension path).isSome) ∧
        ∀ path ∈ site.templateFiles site.sharedFolder true,
          (TemplateName.ofPath? site.sharedFolder site.options.extension path).isSome) := by
  obtain ⟨st⟩ := nonempty_stages h
  obtain ⟨_, _, _, hadded⟩ := st.exists_added
  refine ⟨hadded.distinct, st.entry, st.siblings, st.layouts, st.primary_eq,
    layoutChain_of_layouts st.layouts_eq, st.exists_sections, ?_, st.name_eq, ?_, ?_, ?_,
    hadded.isAmong_shared, ?_⟩
  · intro s hs
    exact st.isAmong_of_mem (by simp [hs])
  · exact st.isAmong_of_mem (by simp)
  · intro path hpath name hname
    have hprimary := (of_primaryOf st.primary_eq).2.2.2 path hpath name hname
    obtain ⟨s, hs, hlower⟩ := Source.isAmong_iff.1 hprimary
    rw [← Source.isAmong_congr hlower]
    refine st.isAmong_of_mem ?_
    simp only [List.mem_append, hs, or_true, true_or]
  · intro request hrequest
    obtain ⟨s, hs, hextra⟩ := exists_of_mem_left (forall₂_of_mapM st.extras_eq) request hrequest
    rw [← (fields_of_extra hextra).2]
    exact st.isAmong_of_mem (by simp [hs])
  · intro hfiles
    constructor
    · intro path hpath
      exact isSome_ofPath?_of_mem_folderFiles hfiles hpath
    · intro path hpath
      exact isSome_ofPath? hfiles (List.prefix_refl _) hpath

/-- One source of every kind, and a later one that only a shared fragment refers to. -/
theorem ordered_and_distinct_circleTarget :
    ∃ d, circleSite.assembleFor none circleTarget = .ok d ∧
      d.sources.map (fun s => (String.ofList s.name, s.kind)) =
        [("f", .layout), ("p/h", .entry), ("p/i", .sibling), ("c", .extra), ("a", .referenced),
          ("e", .referenced), ("n", .shared), ("g", .referenced)] ∧
      Distinct d.sources ∧
      (∀ path ∈ circleSite.templateFiles circleSite.sharedFolder true, ∀ name,
        TemplateName.ofPath? circleSite.sharedFolder circleSite.options.extension path =
          some name → isAmong d.sources name) ∧
      ∃ parts : Sections, d.sources = parts.sources ∧ InPathOrder parts.siblings := by
  obtain ⟨d, hd, hsources⟩ := exists_assembleFor_circleTarget
  obtain ⟨hdistinct, _, _, _, _, _, ⟨parts, hparts, _, _, hsiblings, _⟩, _, _, _, _, _, hshared,
    _⟩ := ordered_and_distinct hd
  exact ⟨d, hd, hsources, hdistinct, hshared, parts, hparts, hsiblings⟩

end Site

end ComponentTags
