import Mathlib
import ComponentTags.Proofs.Document.Stages

/-!
# The entry of a document

Layouts are collected before the entry, so a layout whose name agrees with the entry's in lower case
takes its place. Where the names agree but for the case of ASCII letters the layout closes a cycle,
and there is no document. So an entry is lost exactly to a layout from whose name its own differs in
the case of other letters.
-/

namespace ComponentTags

/-- Exactly one source has the name of the entry, and it is there as the entry. -/
def Document.HasEntry (d : Document) : Prop :=
  (d.sources.filter (·.name == d.entry)).map Source.kind = [.entry]

theorem exists_of_map_eq_ok {ε α β : Type} {x : Except ε α} {f : α → β} {b : β}
    (h : x.map f = .ok b) : ∃ a, x = .ok a ∧ f a = b := by
  cases x with
  | error e => cases h
  | ok a => exact ⟨a, rfl, Except.ok.inj h⟩

namespace Site

open Source (isAmong agree collect)

variable {site : Site} {layout : Option Text} {target : Target} {d : Document}

/-! ## Names of layouts -/

theorem not_isVisited_of_layoutsFrom {first : Text} {visited : List Text}
    {declaredBy layout : Text} {hlayout : layout ∈ site.layoutNames first} {sources : List Source}
    (h : site.layoutsFrom first visited declaredBy layout hlayout = .ok sources) :
    ∀ s ∈ sources, ¬isVisited visited s.name := by
  fun_induction layoutsFrom site first visited declaredBy layout hlayout generalizing sources with
  | case1 | case2 | case4 | case6 => cases h
  | case3 visited declaredBy layout hlayout hv hfile source hread hd =>
    cases h
    simpa [(fields_of_read hread).2.1] using hv
  | case5 visited declaredBy layout hlayout hv hfile source hread d hd _ _ outer houter ih =>
    cases h
    intro s hs
    rcases List.mem_append.1 hs with hs | hs
    · intro hvisited
      exact ih houter s hs (by simp [isVisited] at hvisited ⊢; simp [hvisited])
    · rw [List.mem_singleton.1 hs, (fields_of_read hread).2.1]
      exact hv

/-- A layout that is named like the entry would close a cycle. -/
theorem not_eqIgnoringCase_of_layouts {entry : Source} {explicit : Option Text}
    {chain : List Source} (h : site.layouts entry explicit = .ok chain) :
    ∀ s ∈ chain, ¬Text.eqIgnoringCase s.name entry.name := by
  unfold layouts at h
  split at h
  · cases h
    simp
  · intro s hs
    simpa [isVisited] using not_isVisited_of_layoutsFrom h s hs

/-! ## What becomes of the entry -/

theorem isAmong_eraseDupsBy (chain : List Source) (name : Text) :
    isAmong (chain.eraseDupsBy agree) name = isAmong chain name := by
  rw [Bool.eq_iff_iff]
  constructor
  · exact Source.isAmong_mono (Source.eraseDupsBy_sublist chain).subset
  · intro hname
    obtain ⟨s, hs, hlower⟩ := Source.isAmong_iff.1 hname
    obtain ⟨added, hcollect, -, -, hnames⟩ := Source.exists_collect_eq [] chain
    rw [Source.collect_nil, List.nil_append] at hcollect
    rw [← Source.isAmong_congr hlower, hcollect]
    exact hnames s hs

/-- What is left of the entry once the layouts are collected. -/
def Stages.kept (st : site.Stages layout target d) : List Source :=
  if isAmong st.layouts st.entry.name then [] else [site.withLayout layout st.entry]

theorem Stages.kind_of_mem_layouts (st : site.Stages layout target d) :
    ∀ s ∈ st.layouts.eraseDupsBy agree, s.kind = .layout := fun s hs =>
  (layoutChain_of_layouts st.layouts_eq).kind_eq s ((Source.eraseDupsBy_sublist _).subset hs)

/-- A document begins with its layouts, each once, and with what is left of the entry. Nothing else
is there as a layout or as the entry. -/
theorem Stages.exists_sources_eq (st : site.Stages layout target d) :
    ∃ rest, d.sources = st.layouts.eraseDupsBy agree ++ st.kept ++ rest ∧
      ∀ s ∈ rest, s.kind ≠ .layout ∧ s.kind ≠ .entry := by
  have hlayouts : collect [] st.layouts = st.layouts.eraseDupsBy agree :=
    Source.collect_nil st.layouts
  have hentry : collect (st.layouts.eraseDupsBy agree) [site.withLayout layout st.entry] =
      st.layouts.eraseDupsBy agree ++ st.kept := by
    rw [collect, collect, isAmong_eraseDupsBy, name_withLayout, kept]
    split <;> simp
  have hbase : st.base = collect (st.layouts.eraseDupsBy agree ++ st.kept)
      (st.siblings ++ st.extras) := by
    rw [st.base_eq_collect, ← hentry, ← hlayouts, ← Source.collect_append, ← Source.collect_append]
    simp
  obtain ⟨others, hothers, hsub, -⟩ :=
    Source.exists_collect_eq (st.layouts.eraseDupsBy agree ++ st.kept) (st.siblings ++ st.extras)
  obtain ⟨referenced, shared, later, hadded⟩ := st.exists_added
  refine ⟨others ++ referenced ++ shared ++ later, ?_, ?_⟩
  · rw [hadded.sources_eq, hbase, hothers]
    simp
  · have hkind : ∀ s ∈ others, s.kind = .sibling ∨ s.kind = .extra := by
      intro s hs
      rcases List.mem_append.1 (hsub.subset hs) with hs | hs
      · exact .inl ((of_primaryOf st.primary_eq).2.1 s hs)
      · obtain ⟨request, -, hextra⟩ :=
          exists_of_mem_right (forall₂_of_mapM st.extras_eq) s hs
        exact .inr (fields_of_extra hextra).1
    simp only [List.mem_append]
    rintro s (((hs | hs) | hs) | hs)
    · rcases hkind s hs with h | h <;> simp [h]
    · simp [hadded.referenced_kind s hs]
    · simp [hadded.shared_kind s hs]
    · simp [hadded.later_kind s hs]

/-- The entry is there unless a layout has its name in some case. -/
theorem Stages.hasEntry_iff_not_isAmong (st : site.Stages layout target d) :
    d.HasEntry ↔ isAmong st.layouts st.entry.name = false := by
  obtain ⟨rest, hsources, hrest⟩ := st.exists_sources_eq
  obtain ⟨_, _, _, hadded⟩ := st.exists_added
  have hentry := (of_primaryOf st.primary_eq).1
  constructor
  · intro h
    have hmem : Source.Kind.entry ∈ (d.sources.filter (·.name == d.entry)).map Source.kind := by
      rw [h]
      exact List.mem_singleton_self _
    obtain ⟨s, hs, hkind⟩ := List.mem_map.1 hmem
    refine Bool.eq_false_iff.2 fun hamong => ?_
    have hs := (List.mem_filter.1 hs).1
    rw [hsources, kept, if_pos hamong, List.append_nil] at hs
    rcases List.mem_append.1 hs with hs | hs
    · simp [st.kind_of_mem_layouts s hs] at hkind
    · exact (hrest s hs).2 hkind
  · intro hamong
    have hdistinct := hadded.distinct
    rw [hsources, kept, if_neg (by simp [hamong]), List.append_assoc, List.singleton_append]
      at hdistinct
    obtain ⟨-, hlater, hearlier⟩ := List.pairwise_append.1 hdistinct
    have hbefore : ∀ s ∈ st.layouts.eraseDupsBy agree, s.name ≠ d.entry := by
      intro s hs heq
      refine hearlier s hs _ List.mem_cons_self ?_
      rw [heq, st.name_eq, name_withLayout]
    have hafter : ∀ s ∈ rest, s.name ≠ d.entry := by
      intro s hs heq
      refine List.rel_of_pairwise_cons hlater hs ?_
      rw [heq, st.name_eq, name_withLayout]
    have hnone (sources : List Source) (h : ∀ s ∈ sources, s.name ≠ d.entry) :
        sources.filter (·.name == d.entry) = [] :=
      List.filter_eq_nil_iff.2 (by simpa using h)
    rw [Document.HasEntry, hsources, kept, if_neg (by simp [hamong]), List.filter_append,
      List.filter_append, hnone _ hbefore, hnone _ hafter]
    simp [st.name_eq, hentry]

/-- If the entry is not there, no source has its name as it is spelled. -/
theorem Stages.entry_notMem_names (st : site.Stages layout target d)
    (h : isAmong st.layouts st.entry.name) : d.entry ∉ d.names := by
  obtain ⟨rest, hsources, -⟩ := st.exists_sources_eq
  obtain ⟨_, _, _, hadded⟩ := st.exists_added
  have hdistinct := hadded.distinct
  rw [kept, if_pos h, List.append_nil] at hsources
  rw [hsources] at hdistinct
  rw [← isAmong_eraseDupsBy] at h
  obtain ⟨l, hl, hlower⟩ := Source.isAmong_iff.1 h
  rw [Document.names, hsources]
  intro hname
  obtain ⟨s, hs, hname⟩ := List.mem_map.1 hname
  rw [st.name_eq] at hname
  rcases List.mem_append.1 hs with hs | hs
  · have hnot := not_eqIgnoringCase_of_layouts st.layouts_eq s
      ((Source.eraseDupsBy_sublist _).subset hs)
    simp [hname, Text.eqIgnoringCase] at hnot
  · exact (List.pairwise_append.1 hdistinct).2.2 l hl s hs (by rw [hlower, hname])

/-- A document has its entry exactly if no layout is named like it in lower case. The layouts of a
document never are but for the case of ASCII letters, and if the entry is lost, nothing in the
document has its name. -/
theorem hasEntry_iff (h : site.assembleFor layout target = .ok d) :
    ∃ entry siblings chain, site.primaryOf target = .ok (entry, siblings) ∧
      site.layouts entry layout = .ok chain ∧ d.entry = entry.name ∧
      (∀ l ∈ chain, ¬Text.eqIgnoringCase l.name entry.name) ∧
      (d.HasEntry ↔ ∀ l ∈ chain, Text.lower l.name ≠ Text.lower entry.name) ∧
      (¬d.HasEntry → d.entry ∉ d.names) := by
  obtain ⟨st⟩ := nonempty_stages h
  refine ⟨st.entry, st.siblings, st.layouts, st.primary_eq, st.layouts_eq, st.name_eq,
    not_eqIgnoringCase_of_layouts st.layouts_eq, ?_, ?_⟩
  · rw [st.hasEntry_iff_not_isAmong]
    simp [isAmong]
  · intro hlost
    rw [st.hasEntry_iff_not_isAmong, Bool.not_eq_false] at hlost
    exact st.entry_notMem_names hlost

/-- A site of the given files, all in its root. -/
def ofFiles (files : List (String × String)) : Site where
  files := {
    top := .folder (files.map fun (name, text) => (name.toList, .file (some text.toList))) }
  root := ['/']
  options := {
    extension := ".tmpl".toList
    sharedFolder := "shared".toList
    componentsFolder := "components".toList
    debug := false
    autoescape := true
    exclude := []
    pattern? := Glob.accepts? }

/-- A site whose entry extends a file that has its name in lower case. -/
def accentedSite : Site :=
  .ofFiles [("É.tmpl", "\x7b# extends \"é\" #\x7d"), ("é.tmpl", "frame")]

def accentedTarget : Target :=
  .named "É".toList []

theorem exists_assembleFor_accentedTarget :
    ∃ d, accentedSite.assembleFor none accentedTarget = .ok d ∧
      (String.ofList d.entry, d.sources.map fun s => (String.ofList s.name, s.kind)) =
        ("É", [("é", .layout)]) ∧
      (d.sources.filter (·.name == d.entry)).map Source.kind = [] := by
  have hresult : (accentedSite.assembleFor none accentedTarget).map (fun d =>
      ((String.ofList d.entry, d.sources.map fun s => (String.ofList s.name, s.kind)),
        (d.sources.filter (·.name == d.entry)).map Source.kind)) =
      .ok (("É", [("é", .layout)]), []) := by
    cbv
  obtain ⟨d, hd, hparts⟩ := exists_of_map_eq_ok hresult
  exact ⟨d, hd, Prod.ext_iff.1 hparts⟩

/-- The layout takes the place of the entry. -/
theorem not_hasEntry_accentedSite :
    ∃ d, accentedSite.assembleFor none accentedTarget = .ok d ∧
      (String.ofList d.entry, d.sources.map fun s => (String.ofList s.name, s.kind)) =
        ("É", [("é", .layout)]) ∧
      ¬d.HasEntry := by
  obtain ⟨d, hd, hsources, hnone⟩ := exists_assembleFor_accentedTarget
  refine ⟨d, hd, hsources, ?_⟩
  rw [Document.HasEntry, hnone]
  exact nofun

theorem hasEntry_iff_accentedSite :
    ∃ d, accentedSite.assembleFor none accentedTarget = .ok d ∧
      ∃ entry siblings chain, accentedSite.primaryOf accentedTarget = .ok (entry, siblings) ∧
        accentedSite.layouts entry none = .ok chain ∧ d.entry = entry.name ∧
        (∀ l ∈ chain, ¬Text.eqIgnoringCase l.name entry.name) ∧
        (d.HasEntry ↔ ∀ l ∈ chain, Text.lower l.name ≠ Text.lower entry.name) ∧
        (¬d.HasEntry → d.entry ∉ d.names) := by
  obtain ⟨d, hd, -⟩ := exists_assembleFor_accentedTarget
  exact ⟨d, hd, hasEntry_iff hd⟩

end Site

end ComponentTags
