import Mathlib
import ComponentTags.Document.Assembly

/-!
# Layouts of an entry

The layout of an entry is named by the request or by the entry, and every further layout by the
layout inside of it. Following these names either ends at a layout that names no other or fails.
-/

namespace ComponentTags.Site

/-- The layouts from the outermost on down to the one of the given name, each the file of the name
that the layout inside of it declares. The outermost layout declares none. -/
inductive LayoutChain (site : Site) : Option Text → List Source → Prop
  | none : LayoutChain site none []
  | some {name : Text} {source : Source} {outer : List Source}
      (hread : site.read .layout (site.normalize name) (site.pathOf (site.normalize name)) =
        .ok source)
      (houter : LayoutChain site (source.directive.map Directive.layout) outer) :
      LayoutChain site (some name) (outer ++ [source])

variable {site : Site}

/-- What is read is named and kept as it was asked for. -/
theorem fields_of_read {kind : Source.Kind} {name path : Text} {source : Source}
    (h : site.read kind name path = .ok source) :
    source.kind = kind ∧ source.name = name ∧ source.path = some path := by
  unfold read at h
  split at h
  · cases h
  · cases h
    exact ⟨rfl, rfl, rfl⟩

theorem LayoutChain.kind_eq {name : Option Text} {chain : List Source}
    (h : LayoutChain site name chain) : ∀ s ∈ chain, s.kind = .layout := by
  induction h with
  | none => simp
  | some hread _ ih =>
    intro s hs
    rcases List.mem_append.1 hs with hs | hs
    · exact ih s hs
    · rw [List.mem_singleton.1 hs]
      exact (fields_of_read hread).1

/-- Every name leads to one chain at most. -/
theorem LayoutChain.unique {name : Option Text} {chain chain' : List Source}
    (h : LayoutChain site name chain) (h' : LayoutChain site name chain') : chain = chain' := by
  induction h generalizing chain' with
  | none => cases h'; rfl
  | some hread _ ih =>
    cases h' with
    | some hread' houter' =>
      rw [hread] at hread'
      cases hread'
      rw [ih houter']

theorem layoutChain_of_layoutsFrom {first : Text} {visited : List Text} {declaredBy layout : Text}
    {hlayout : layout ∈ site.layoutNames first} {sources : List Source}
    (h : site.layoutsFrom first visited declaredBy layout hlayout = .ok sources) :
    ∃ source outer, site.read .layout layout (site.pathOf layout) = .ok source ∧
      LayoutChain site (source.directive.map Directive.layout) outer ∧
      sources = outer ++ [source] := by
  fun_induction layoutsFrom site first visited declaredBy layout hlayout generalizing sources with
  | case1 | case2 | case4 | case6 => cases h
  | case3 visited declaredBy layout hlayout hv hfile source hread hd =>
    cases h
    refine ⟨source, [], hread, ?_, rfl⟩
    rw [hd]
    exact .none
  | case5 visited declaredBy layout hlayout hv hfile source hread d hd _ _ outer houter ih =>
    cases h
    obtain ⟨next, rest, hnext, hrest, rfl⟩ := ih houter
    refine ⟨source, rest ++ [next], hread, ?_, rfl⟩
    rw [hd]
    exact .some hnext hrest

/-- The layouts of an entry are the chain of the layout that is asked for or declared. -/
theorem layoutChain_of_layouts {entry : Source} {explicit : Option Text} {sources : List Source}
    (h : site.layouts entry explicit = .ok sources) :
    LayoutChain site (explicit.or (entry.directive.map Directive.layout)) sources := by
  unfold layouts at h
  split at h
  · next hnone =>
    cases h
    rw [hnone]
    exact .none
  · next name hsome =>
    obtain ⟨source, outer, hread, houter, rfl⟩ := layoutChain_of_layoutsFrom h
    rw [hsome]
    exact .some hread houter

end ComponentTags.Site
