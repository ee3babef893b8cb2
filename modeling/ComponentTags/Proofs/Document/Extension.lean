import Mathlib
import ComponentTags.Proofs.Document.Entry

/-!
# What sources extend

A layout is looked up by a normalized name. Where names are written in that form and told apart,
every source of a chain of layouts extends the one outside of it by its very name. A layout that
was asked for is extended by its very name however it was spelled. Only an entry with a statement
of its own does not extend it.
-/

namespace ComponentTags

namespace Source

/-- The layout that a source extends when it is compiled, as the compiled text names it. -/
def extended (s : Source) : Option Text :=
  s.injected.or <|
    match s.directive with
    | some (.statement layout) => some layout
    | _ => none

/-- Reading a text, nothing is injected that the text does not name. -/
@[simp] theorem extended_ofText (name : Text) (path : Option Text) (kind : Kind) (text : Text) :
    (ofText name path kind text).extended = (Directive.find? text).map Directive.layout := by
  simp only [extended, ofText, directive]
  cases Directive.find? text with
  | none => rfl
  | some d => cases d <;> rfl

/-- Sources whose names are told apart are all collected. -/
theorem collect_of_distinct {found new : List Source} (h : Distinct (found ++ new)) :
    collect found new = found ++ new := by
  induction new generalizing found with
  | nil => simp [collect]
  | cons s new ih =>
    have hnew : ¬isAmong found s.name := by
      intro hamong
      obtain ⟨t, ht, hlower⟩ := isAmong_iff.1 hamong
      exact (List.pairwise_append.1 h).2.2 t ht s List.mem_cons_self hlower
    rw [collect, if_neg hnew, ih (by simpa using h)]
    simp

theorem eraseDupsBy_of_distinct {sources : List Source} (h : Distinct sources) :
    sources.eraseDupsBy agree = sources := by
  rw [← collect_nil, collect_of_distinct (by simpa using h), List.nil_append]

end Source

/-- Every source that comes after a layout extends it by exactly its name. -/
def Document.ExtendsLayouts (d : Document) : Prop :=
  d.sources.IsChain fun outer inner => outer.kind = .layout → inner.extended = some outer.name

instance (d : Document) : Decidable d.ExtendsLayouts :=
  inferInstanceAs (Decidable (List.IsChain _ _))

namespace Site

open Source (Distinct)

variable {site : Site} {layout : Option Text} {target : Target} {d : Document}
  {entry : Source} {siblings chain : List Source}

theorem extended_of_read {kind : Source.Kind} {name path : Text} {source : Source}
    (h : site.read kind name path = .ok source) :
    source.extended = source.directive.map Directive.layout := by
  unfold read at h
  split at h
  · cases h
  · cases h
    exact Source.extended_ofText ..

theorem extended_of_primaryOf (h : site.primaryOf target = .ok (entry, siblings)) :
    entry.extended = entry.directive.map Directive.layout := by
  cases target with
  | text source =>
    cases h
    exact Source.extended_ofText ..
  | named request extras =>
    obtain ⟨name, hread, -⟩ := exists_of_primary extras h
    exact extended_of_read hread

/-! ## Layouts that are asked for -/

theorem extended_withLayout (name : Text)
    (h : ∀ written, entry.directive ≠ some (.statement written)) :
    (site.withLayout (some name) entry).extended = some (site.normalize name) := by
  unfold withLayout
  split
  · next hnone => cases hnone
  · next hstatement => exact absurd hstatement (h _)
  · next heq _ =>
    cases heq
    rfl

theorem withLayout_of_statement {written : Text} (h : entry.directive = some (.statement written)) :
    site.withLayout layout entry = entry := by
  unfold withLayout
  rw [h]
  cases layout <;> rfl

/-! ## Chains of layouts -/

/-- A source names the layout that it extends as it is normalized. -/
def NamesPlainly (site : Site) (s : Source) : Prop :=
  ∀ written, s.extended = some written → site.normalize written = written

/-- The innermost layout has the name that leads to the chain. -/
theorem map_name_getLast?_of_layoutChain {name : Option Text} (h : site.LayoutChain name chain) :
    chain.getLast?.map Source.name = name.map site.normalize := by
  cases h with
  | none => rfl
  | some hread _ => simp [(fields_of_read hread).2.1]

/-- What leads to a chain of layouts extends the innermost one. -/
theorem NamesPlainly.extended_eq {s : Source} (hplain : site.NamesPlainly s)
    (h : site.LayoutChain s.extended chain) : s.extended = chain.getLast?.map Source.name := by
  rw [map_name_getLast?_of_layoutChain h]
  cases hextended : s.extended with
  | none => rfl
  | some written => rw [Option.map_some, hplain written hextended]

/-- Every layout of a chain is extended by the next one, and the outermost extends none. -/
theorem isChain_of_layoutChain {name : Option Text} (h : site.LayoutChain name chain) :
    (chain.IsChain fun outer inner =>
      site.NamesPlainly inner → inner.extended = some outer.name) ∧
    ∀ s ∈ chain.head?, s.extended = none := by
  induction h with
  | none => simp
  | @some name source outer hread houter ih =>
    rw [← extended_of_read hread] at houter
    constructor
    · rw [List.isChain_append]
      refine ⟨ih.1, .singleton _, fun s hs t ht hplain => ?_⟩
      obtain rfl : source = t := by simpa using ht
      rw [hplain.extended_eq houter, Option.mem_def.1 hs, Option.map_some]
    · intro s hs
      cases outer with
      | nil =>
        obtain rfl : source = s := by simpa using hs
        exact Option.map_eq_none_iff.1 (map_name_getLast?_of_layoutChain houter).symm
      | cons t outer => exact ih.2 s (by simpa using hs)

/-! ## Documents -/

/-- The layouts of a document and what its sources extend, where `entry` is the entry as it is read
and `chain` are the layouts that it leads to. -/
structure Framed (site : Site) (layout : Option Text) (d : Document) (entry : Source)
    (chain : List Source) : Prop where
  kind_eq : ∀ s ∈ chain, s.kind = .layout
  /-- Where names are told apart, the document begins with the layouts and the entry. -/
  sources_eq : Distinct (chain ++ [entry]) → ∃ rest,
    d.sources = chain ++ site.withLayout layout entry :: rest ∧
      ∀ s ∈ rest, s.kind ≠ .layout ∧ s.kind ≠ .entry
  outermost : ∀ s ∈ chain.head?, s.extended = none
  isChain : chain.IsChain fun outer inner =>
    site.NamesPlainly inner → inner.extended = some outer.name
  declared : layout = none → site.NamesPlainly entry →
    (site.withLayout layout entry).extended = chain.getLast?.map Source.name
  /-- The layout that is asked for is extended by its very name, in whatever way it is spelled. -/
  asked : ∀ name, layout = some name → ∃ s ∈ chain.getLast?, s.name = site.normalize name ∧
    ((∀ written, entry.directive ≠ some (.statement written)) →
      (site.withLayout layout entry).extended = some s.name)
  /-- A statement of the entry's own stays in force. -/
  overruled : ∀ written, entry.directive = some (.statement written) →
    (site.withLayout layout entry).extended = some written
  /-- Where names are told apart and written as they are normalized, they are those of the
  layouts. -/
  extendsLayouts : Distinct (chain ++ [entry]) →
    (layout.isSome → ∀ written, entry.directive ≠ some (.statement written)) →
    (∀ s ∈ chain, site.NamesPlainly s) → (layout = none → site.NamesPlainly entry) →
    d.ExtendsLayouts

namespace Stages

theorem extended_declared (st : site.Stages none target d) (hplain : site.NamesPlainly st.entry) :
    st.entry.extended = st.layouts.getLast?.map Source.name := by
  have hchain := layoutChain_of_layouts st.layouts_eq
  rw [Option.none_or, ← extended_of_primaryOf st.primary_eq] at hchain
  exact hplain.extended_eq hchain

theorem exists_innermost {name : Text} (st : site.Stages (some name) target d) :
    ∃ s ∈ st.layouts.getLast?, s.name = site.normalize name := by
  have hchain := layoutChain_of_layouts st.layouts_eq
  exact Option.map_eq_some_iff.1 (map_name_getLast?_of_layoutChain hchain)

theorem extended_entry {written : Text} (st : site.Stages layout target d)
    (h : st.entry.directive = some (.statement written)) :
    (site.withLayout layout st.entry).extended = some written := by
  rw [withLayout_of_statement h, extended_of_primaryOf st.primary_eq, h]
  rfl

/-- Where names are told apart, nothing is dropped between the layouts and the entry. -/
theorem exists_sources_eq_of_distinct (st : site.Stages layout target d)
    (h : Distinct (st.layouts ++ [st.entry])) :
    ∃ rest, d.sources = st.layouts ++ site.withLayout layout st.entry :: rest ∧
      ∀ s ∈ rest, s.kind ≠ .layout ∧ s.kind ≠ .entry := by
  obtain ⟨rest, hsources, hrest⟩ := st.exists_sources_eq
  obtain ⟨hlayouts, -, hentry⟩ := List.pairwise_append.1 h
  have hkept : st.kept = [site.withLayout layout st.entry] := by
    refine if_neg fun hamong => ?_
    obtain ⟨s, hs, hlower⟩ := Source.isAmong_iff.1 hamong
    exact hentry s hs _ (List.mem_singleton_self _) hlower
  refine ⟨rest, ?_, hrest⟩
  rw [hsources, hkept, Source.eraseDupsBy_of_distinct hlayouts]
  simp

theorem extendsLayouts (st : site.Stages layout target d)
    (hdistinct : Distinct (st.layouts ++ [st.entry]))
    (hstatement : layout.isSome → ∀ written, st.entry.directive ≠ some (.statement written))
    (hlayouts : ∀ s ∈ st.layouts, site.NamesPlainly s)
    (hentry : layout = none → site.NamesPlainly st.entry) : d.ExtendsLayouts := by
  obtain ⟨rest, hsources, hrest⟩ := st.exists_sources_eq_of_distinct hdistinct
  rw [Document.ExtendsLayouts, hsources, List.isChain_append]
  refine ⟨?_, ?_, fun s hs t ht _ => ?_⟩
  · have hchain := (isChain_of_layoutChain (layoutChain_of_layouts st.layouts_eq)).1
    rw [List.isChain_iff_forall_rel_of_append_cons_cons] at hchain ⊢
    intro outer inner before after hsplit _
    exact hchain hsplit (hlayouts inner (by simp [hsplit]))
  · -- no layout comes after the entry
    have hkind : ∀ s ∈ site.withLayout layout st.entry :: rest, s.kind ≠ .layout :=
      List.forall_mem_cons.2
        ⟨by simp [(of_primaryOf st.primary_eq).1], fun s hs => (hrest s hs).1⟩
    exact (List.pairwise_of_forall_mem_list fun s hs t _ h => absurd h (hkind s hs)).isChain
  · obtain rfl : site.withLayout layout st.entry = t := by simpa using ht
    cases layout with
    | none =>
      have hdeclared := st.extended_declared (hentry rfl)
      rw [Option.mem_def.1 hs] at hdeclared
      exact hdeclared
    | some name =>
      obtain ⟨innermost, hinnermost, hname⟩ := st.exists_innermost
      obtain rfl := Option.mem_unique hs hinnermost
      rw [extended_withLayout name (hstatement rfl), hname]

end Stages

/-- The layouts of a document are a chain in which every source that names its layout plainly
extends the layout before it by its very name. The entry extends the layout that it declares in the
same way and one that was asked for in whatever spelling, unless it has a statement of its own,
which stays. -/
theorem exists_framed (h : site.assembleFor layout target = .ok d) :
    ∃ entry siblings chain, site.primaryOf target = .ok (entry, siblings) ∧
      site.layouts entry layout = .ok chain ∧ site.Framed layout d entry chain := by
  obtain ⟨st⟩ := nonempty_stages h
  have hlayouts := layoutChain_of_layouts st.layouts_eq
  obtain ⟨hchain, houtermost⟩ := isChain_of_layoutChain hlayouts
  refine ⟨st.entry, st.siblings, st.layouts, st.primary_eq, st.layouts_eq, {
    kind_eq := hlayouts.kind_eq
    sources_eq := st.exists_sources_eq_of_distinct
    outermost := houtermost
    isChain := hchain
    declared := ?_
    asked := ?_
    overruled := fun written => st.extended_entry
    extendsLayouts := st.extendsLayouts }⟩
  · rintro rfl hplain
    exact st.extended_declared hplain
  · rintro name rfl
    obtain ⟨s, hs, hname⟩ := st.exists_innermost
    exact ⟨s, hs, hname, fun hstatement => by rw [extended_withLayout name hstatement, hname]⟩

/-- A site with a layout in a layout, a page that extends one by a statement, and a note whose
comment spells the name of a file. -/
def framedSite : Site :=
  .ofFiles [("base.tmpl", ""), ("wide.tmpl", "\x7b# extends \"base\" #\x7d"),
    ("page.tmpl", "\x7b% extends \"base\" %\x7d"),
    ("note.tmpl", "\x7b# extends \"./base.tmpl\" #\x7d")]

/-- The layouts of a document and its entry, with the names of what they extend. -/
def frameOf (d : Document) : List (String × Option String) :=
  (d.sources.filter fun s => s.kind == .layout || s.kind == .entry).map fun s =>
    (String.ofList s.name, s.extended.map String.ofList)

theorem exists_of_frame (layout : Option Text) (name : String)
    (frame : List (String × Option String)) (extending : Bool)
    (h : (framedSite.assembleFor layout (.named name.toList [])).map
      (fun d => (frameOf d, decide d.ExtendsLayouts)) = .ok (frame, extending)) :
    ∃ d, framedSite.assembleFor layout (.named name.toList []) = .ok d ∧ frameOf d = frame ∧
      (d.ExtendsLayouts ↔ extending) := by
  obtain ⟨d, hd, hparts⟩ := exists_of_map_eq_ok h
  obtain ⟨rfl, rfl⟩ := Prod.ext_iff.1 hparts
  exact ⟨d, hd, rfl, by simp⟩

/-- An entry keeps the statement of its own beside a layout that is asked for. -/
theorem not_extendsLayouts_framedSite :
    ∃ d, framedSite.assembleFor (some "wide".toList) (.named "page".toList []) = .ok d ∧
      frameOf d = [("base", none), ("wide", some "base"), ("page", some "base")] ∧
      ¬d.ExtendsLayouts := by
  obtain ⟨d, hd, hframe, hextends⟩ := exists_of_frame (some "wide".toList) "page"
    [("base", none), ("wide", some "base"), ("page", some "base")] false (by cbv)
  exact ⟨d, hd, hframe, by simp [hextends]⟩

/-- A layout that is asked for is found in any spelling. -/
theorem exists_framed_framedSite :
    ∃ d, framedSite.assembleFor (some "./wide.tmpl".toList) (.named "note".toList []) = .ok d ∧
      frameOf d = [("base", none), ("wide", some "base"), ("note", some "wide")] ∧
      d.ExtendsLayouts ∧
      ∃ entry siblings chain,
        framedSite.primaryOf (.named "note".toList []) = .ok (entry, siblings) ∧
        framedSite.layouts entry (some "./wide.tmpl".toList) = .ok chain ∧
        framedSite.Framed (some "./wide.tmpl".toList) d entry chain := by
  obtain ⟨d, hd, hframe, hextends⟩ := exists_of_frame (some "./wide.tmpl".toList) "note"
    [("base", none), ("wide", some "base"), ("note", some "wide")] true (by cbv)
  exact ⟨d, hd, hframe, hextends.2 rfl, exists_framed hd⟩

end Site

end ComponentTags
