import Mathlib
import ComponentTags.Proofs.Document.Discovery

/-!
# Stages of an assembly

A document is assembled in stages: the entry and the files of its folder, layouts, extra files, what
these refer to, shared fragments, and what those refer to. Each stage adds sources of its own kind
behind those that are there, in the order of the files it goes through.
-/

namespace ComponentTags

/-! ## Results -/

section Results

variable {ε α β : Type}

theorem exists_of_bind_eq_ok {x : Except ε α} {f : α → Except ε β} {b : β}
    (h : x >>= f = .ok b) : ∃ a, x = .ok a ∧ f a = .ok b := by
  cases x with
  | error e => cases h
  | ok a => exact ⟨a, rfl, h⟩

theorem forall₂_of_mapM {f : α → Except ε β} {as : List α} {bs : List β}
    (h : as.mapM f = .ok bs) : List.Forall₂ (fun a b => f a = .ok b) as bs := by
  induction as generalizing bs with
  | nil =>
    cases h
    exact .nil
  | cons a as ih =>
    rw [List.mapM_cons] at h
    obtain ⟨b, hb, h⟩ := exists_of_bind_eq_ok h
    obtain ⟨rest, hrest, h⟩ := exists_of_bind_eq_ok h
    cases h
    exact .cons hb (ih hrest)

theorem exists_of_mem_right {R : α → β → Prop} {as : List α} {bs : List β}
    (h : List.Forall₂ R as bs) : ∀ b ∈ bs, ∃ a ∈ as, R a b := by
  induction h with
  | nil => simp
  | cons hhead _ ih =>
    intro b hb
    rcases List.mem_cons.1 hb with rfl | hb
    · exact ⟨_, List.mem_cons_self .., hhead⟩
    · obtain ⟨a, ha, hab⟩ := ih b hb
      exact ⟨a, List.mem_cons_of_mem _ ha, hab⟩

theorem exists_of_mem_left {R : α → β → Prop} {as : List α} {bs : List β}
    (h : List.Forall₂ R as bs) : ∀ a ∈ as, ∃ b ∈ bs, R a b :=
  exists_of_mem_right (R := flip R) h.flip

theorem map_eq_of_forall₂ {γ : Type} {f : α → γ} {g : β → γ} {as : List α} {bs : List β}
    (h : List.Forall₂ (fun a b => f a = g b) as bs) : as.map f = bs.map g := by
  rw [← List.forall₂_eq_eq_eq, List.forall₂_map_left_iff, List.forall₂_map_right_iff]
  exact h

end Results

/-- What a document is assembled for: a template of a site and extra ones, or a text. -/
inductive Target where
  | named (request : Text) (extras : List Text)
  | text (source : Text)

def Target.extras : Target → List Text
  | named _ extras => extras
  | text _ => []

namespace Source

/-- The sources are files at some of the given paths, in the order of the paths. -/
def FollowPaths (sources : List Source) (paths : List Text) : Prop :=
  ∃ own : List Text, own.Sublist paths ∧ sources.map Source.path = own.map some

theorem followPaths_nil (paths : List Text) : FollowPaths [] paths :=
  ⟨[], List.nil_sublist _, rfl⟩

theorem FollowPaths.of_cons {sources : List Source} {path : Text} {paths : List Text}
    (h : FollowPaths sources paths) : FollowPaths sources (path :: paths) := by
  obtain ⟨own, hown, hpaths⟩ := h
  exact ⟨own, hown.cons _, hpaths⟩

theorem FollowPaths.cons {s : Source} {sources : List Source} {path : Text} {paths : List Text}
    (h : FollowPaths sources paths) (hs : s.path = some path) :
    FollowPaths (s :: sources) (path :: paths) := by
  obtain ⟨own, hown, hpaths⟩ := h
  exact ⟨path :: own, hown.cons_cons _, by rw [List.map_cons, hs, hpaths, List.map_cons]⟩

theorem FollowPaths.sublist {sources sources' : List Source} {paths : List Text}
    (h : FollowPaths sources paths) (hs : sources'.Sublist sources) :
    FollowPaths sources' paths := by
  obtain ⟨own, hown, hpaths⟩ := h
  have hmap := hs.map Source.path
  rw [hpaths] at hmap
  obtain ⟨own', hown', hpaths'⟩ := List.sublist_map_iff.1 hmap
  exact ⟨own', hown'.trans hown, hpaths'⟩

theorem FollowPaths.exists_path {sources : List Source} {paths : List Text}
    (h : FollowPaths sources paths) {s : Source} (hs : s ∈ sources) :
    ∃ path ∈ paths, s.path = some path := by
  obtain ⟨own, hown, hpaths⟩ := h
  have hmem : s.path ∈ own.map some := hpaths ▸ List.mem_map_of_mem hs
  obtain ⟨path, hpath, heq⟩ := List.mem_map.1 hmem
  exact ⟨path, hown.subset hpath, heq.symm⟩

end Source

namespace Site

open Source (isAmong collect Distinct FollowPaths)

/-- The entry of a target and the other files of its folder. -/
def primaryOf (site : Site) : Target → Except Error (Source × List Source)
  | .named request _ => site.primary request
  | .text source => .ok (.inline source, [])

def assembleFor (site : Site) (layout : Option Text) : Target → Except Error Document
  | .named request extras => site.assemble layout request extras
  | .text source => site.assembleInline layout source

/-- The template files of the folder that goes with an entry: those beside a file, and those at any
depth of a folder that is asked for. -/
def folderFiles (site : Site) : Target → List Text
  | .named request _ =>
    let name := site.normalize request
    if site.files.isFile (site.pathOf name) then
      match folderOf? name with
      | none => []
      | some folder => site.templateFiles (Path.join site.root folder) false
    else site.templateFiles (Path.join site.root name) true
  | .text _ => []

/-- The folder of the shared fragments. -/
def sharedFolder (site : Site) : Text :=
  Path.join site.root site.options.sharedFolder

variable {site : Site}

theorem assembleFor_eq (layout : Option Text) (target : Target) :
    site.assembleFor layout target =
      (site.primaryOf target >>= fun primary =>
        site.assembleFrom layout primary.1 primary.2 target.extras) := by
  cases target <;> rfl

/-! ## The entry and its folder -/

theorem map_snd_named_sublist (site : Site) (entry : Text) (paths : List Text) :
    ((paths.filterMap (siblings.named site entry)).map Prod.snd).Sublist paths := by
  induction paths with
  | nil => exact .slnil
  | cons path paths ih =>
    cases hnamed : siblings.named site entry path with
    | none =>
      rw [List.filterMap_cons_none hnamed]
      exact ih.cons _
    | some named =>
      have hpath : named.2 = path := by
        unfold siblings.named at hnamed
        obtain ⟨name, hname, h⟩ := Option.bind_eq_some_iff.1 hnamed
        split at h
        · cases h
        · cases h
          rfl
      rw [List.filterMap_cons_some hnamed, List.map_cons, hpath]
      exact ih.cons_cons _

theorem of_siblings {entry folder : Text} {recursive : Bool} {sources : List Source}
    (h : site.siblings entry folder recursive = .ok sources) :
    (∀ s ∈ sources, s.kind = .sibling) ∧
      FollowPaths sources (site.templateFiles folder recursive) ∧
      ∀ path ∈ site.templateFiles folder recursive, ∀ name,
        TemplateName.ofPath? site.root site.options.extension path = some name →
        Text.eqIgnoringCase name entry ∨ isAmong sources name := by
  have hread := forall₂_of_mapM h
  refine ⟨?_, ⟨_, map_snd_named_sublist site entry _, ?_⟩, ?_⟩
  · intro s hs
    obtain ⟨_, _, hs⟩ := exists_of_mem_right hread s hs
    exact (fields_of_read hs).1
  · rw [List.map_map]
    refine map_eq_of_forall₂ (hread.flip.imp ?_)
    intro s named hs
    exact (fields_of_read hs).2.2
  · intro path hpath name hname
    by_cases hentry : Text.eqIgnoringCase name entry
    · exact .inl hentry
    · have hnamed : siblings.named site entry path = some (name, path) := by
        simp [siblings.named, hname, hentry]
      obtain ⟨s, hs, hs'⟩ :=
        exists_of_mem_left hread _ (List.mem_filterMap.2 ⟨path, hpath, hnamed⟩)
      rw [← (fields_of_read hs').2.1]
      exact .inr (Source.isAmong_of_mem hs)

/-- The names of all template files of the folder are those of the entry and the other files. -/
theorem isAmong_cons_of_siblings {entry : Source} {name folder : Text} {recursive : Bool}
    {sources : List Source} (hentry : entry.name = name)
    (h : site.siblings name folder recursive = .ok sources) :
    ∀ path ∈ site.templateFiles folder recursive, ∀ own,
      TemplateName.ofPath? site.root site.options.extension path = some own →
      isAmong (entry :: sources) own := by
  intro path hpath own hown
  rcases (of_siblings h).2.2 path hpath own hown with hsame | hother
  · have hlower := Text.lower_eq_of_eqIgnoringCase hsame
    exact Source.isAmong_iff.2 ⟨entry, List.mem_cons_self .., hentry ▸ hlower.symm⟩
  · exact Source.isAmong_mono (List.subset_cons_self _ _) hother

/-- An entry is read from a file of its name. The other files are those of its folder, if it has
one. -/
theorem exists_of_primary {request : Text} (extras : List Text) {entry : Source}
    {sources : List Source} (h : site.primary request = .ok (entry, sources)) :
    ∃ name, site.read .entry name (site.pathOf name) = .ok entry ∧
      (site.folderFiles (.named request extras) = [] ∧ sources = [] ∨
        ∃ folder recursive,
          site.folderFiles (.named request extras) = site.templateFiles folder recursive ∧
          site.siblings name folder recursive = .ok sources) := by
  simp only [primary] at h
  split at h
  · next hfile =>
    obtain ⟨own, hread, h⟩ := exists_of_bind_eq_ok h
    simp only [folderFiles, hfile, if_true]
    cases hfolder : folderOf? (site.normalize request) with
    | none =>
      rw [hfolder] at h
      cases h
      exact ⟨_, hread, .inl ⟨rfl, rfl⟩⟩
    | some folder =>
      rw [hfolder] at h
      obtain ⟨others, hsiblings, h⟩ := exists_of_bind_eq_ok h
      cases h
      exact ⟨_, hread, .inr ⟨_, _, rfl, hsiblings⟩⟩
  · next hfile =>
    split at h
    · split at h
      · obtain ⟨own, hread, h⟩ := exists_of_bind_eq_ok h
        obtain ⟨others, hsiblings, h⟩ := exists_of_bind_eq_ok h
        cases h
        exact ⟨_, hread, .inr ⟨_, _, by simp only [folderFiles, hfile]; rfl, hsiblings⟩⟩
      · cases h
    · cases h

theorem of_primaryOf {target : Target} {entry : Source} {sources : List Source}
    (h : site.primaryOf target = .ok (entry, sources)) :
    entry.kind = .entry ∧ (∀ s ∈ sources, s.kind = .sibling) ∧
      FollowPaths sources (site.folderFiles target) ∧
      ∀ path ∈ site.folderFiles target, ∀ name,
        TemplateName.ofPath? site.root site.options.extension path = some name →
        isAmong (entry :: sources) name := by
  cases target with
  | text source =>
    cases h
    exact ⟨rfl, by simp, Source.followPaths_nil _, by simp [folderFiles]⟩
  | named request extras =>
    obtain ⟨name, hread, hfolder⟩ := exists_of_primary extras h
    obtain ⟨hkind, hname, _⟩ := fields_of_read hread
    rcases hfolder with ⟨hfiles, rfl⟩ | ⟨folder, recursive, hfiles, hsiblings⟩
    · rw [hfiles]
      exact ⟨hkind, by simp, Source.followPaths_nil _, by simp⟩
    · rw [hfiles]
      obtain ⟨hkinds, hpaths, _⟩ := of_siblings hsiblings
      exact ⟨hkind, hkinds, hpaths, isAmong_cons_of_siblings hname hsiblings⟩

/-! ## Extra files and shared fragments -/

theorem fields_of_extra {request : Text} {source : Source} (h : site.extra request = .ok source) :
    source.kind = .extra ∧ source.name = site.normalize request := by
  unfold extra at h
  dsimp only at h
  split at h
  · obtain ⟨hkind, hname, _⟩ := fields_of_read h
    exact ⟨hkind, hname⟩
  · cases h

/-- What is added for the shared fragments at the given paths: files among them, in their order, so
that every name is there in the end. -/
structure Shares (site : Site) (folder : Text) (found : List Source) (paths : List Text)
    (added : List Source) : Prop where
  kind_eq : ∀ s ∈ added, s.kind = .shared
  followPaths : FollowPaths added paths
  distinct : Distinct (found ++ added)
  isAmong_name : ∀ path ∈ paths, ∀ name,
    TemplateName.ofPath? folder site.options.extension path = some name →
    isAmong (found ++ added) name

/-- A path without a new name adds nothing. -/
theorem Shares.skip {folder path : Text} {found added : List Source} {paths : List Text}
    (h : Shares site folder found paths added)
    (hold : ∀ name, TemplateName.ofPath? folder site.options.extension path = some name →
      isAmong found name) :
    Shares site folder found (path :: paths) added where
  kind_eq := h.kind_eq
  followPaths := h.followPaths.of_cons
  distinct := h.distinct
  isAmong_name := by
    intro path' hpath name hname
    rcases List.mem_cons.1 hpath with rfl | hpath
    · exact Source.isAmong_mono (List.subset_append_left _ _) (hold name hname)
    · exact h.isAmong_name path' hpath name hname

theorem Shares.add {folder path name : Text} {found added : List Source} {paths : List Text}
    {source : Source} (h : Shares site folder (found ++ [source]) paths added)
    (hname : TemplateName.ofPath? folder site.options.extension path = some name)
    (hread : site.read .shared name path = .ok source) :
    Shares site folder found (path :: paths) (source :: added) := by
  obtain ⟨hkind, hsource, hpath⟩ := fields_of_read hread
  obtain ⟨hkinds, hpaths, hdistinct, hnames⟩ := h
  rw [List.append_assoc, List.singleton_append] at hdistinct hnames
  refine ⟨?_, hpaths.cons hpath, hdistinct, ?_⟩
  · intro s hs
    rcases List.mem_cons.1 hs with rfl | hs
    · exact hkind
    · exact hkinds s hs
  · intro path' hpath' name' hname'
    rcases List.mem_cons.1 hpath' with rfl | hpath'
    · obtain rfl : name = name' := Option.some.inj (hname.symm.trans hname')
      rw [← hsource]
      exact Source.isAmong_of_mem (by simp)
    · exact hnames path' hpath' name' hname'

theorem exists_shares {folder : Text} {found result : List Source} {paths : List Text}
    (hd : Distinct found) (h : site.addShared folder found paths = .ok result) :
    ∃ added, result = found ++ added ∧ Shares site folder found paths added := by
  induction paths generalizing found with
  | nil =>
    cases h
    exact ⟨[], by simp, by simp, Source.followPaths_nil _, by simpa using hd, by simp⟩
  | cons path paths ih =>
    rw [addShared] at h
    split at h
    · next hnone =>
      obtain ⟨added, hresult, hshares⟩ := ih hd h
      exact ⟨added, hresult, hshares.skip (by simp [hnone])⟩
    · next name hname =>
      split at h
      · next hf =>
        obtain ⟨added, hresult, hshares⟩ := ih hd h
        refine ⟨added, hresult, hshares.skip ?_⟩
        intro name' hname'
        obtain rfl : name = name' := Option.some.inj (hname.symm.trans hname')
        exact hf
      · next hf =>
        obtain ⟨source, hread, h⟩ := exists_of_bind_eq_ok h
        obtain ⟨-, hsource, -⟩ := fields_of_read hread
        obtain ⟨added, hresult, hshares⟩ := ih (hd.concat (hsource ▸ hf)) h
        exact ⟨source :: added, by simpa using hresult, hshares.add hname hread⟩

/-! ## The stages of a document -/

/-- What the assembly of a document goes through. -/
structure Stages (site : Site) (layout : Option Text) (target : Target) (d : Document) where
  entry : Source
  siblings : List Source
  layouts : List Source
  extras : List Source
  /-- Everything that is not there for a reference and not shared. -/
  base : List Source
  /-- Everything that is not shared and not there for a shared fragment. -/
  found : List Source
  withShared : List Source
  primary_eq : site.primaryOf target = .ok (entry, siblings)
  layouts_eq : site.layouts entry layout = .ok layouts
  extras_eq : target.extras.mapM site.extra = .ok extras
  base_eq : base = collect (collect [] (layouts ++ site.withLayout layout entry :: siblings)) extras
  found_eq : site.discover base base = .ok found
  withShared_eq : site.addShared site.sharedFolder found
    (site.templateFiles site.sharedFolder true) = .ok withShared
  sources_eq : site.discover withShared (withShared.drop found.length) = .ok d.sources
  name_eq : d.entry = entry.name

theorem nonempty_stages {layout : Option Text} {target : Target} {d : Document}
    (h : site.assembleFor layout target = .ok d) : Nonempty (site.Stages layout target d) := by
  rw [assembleFor_eq] at h
  obtain ⟨⟨entry, siblings⟩, hprimary, h⟩ := exists_of_bind_eq_ok h
  unfold assembleFrom at h
  obtain ⟨layouts, hlayouts, h⟩ := exists_of_bind_eq_ok h
  obtain ⟨extras, hextras, h⟩ := exists_of_bind_eq_ok h
  obtain ⟨found, hfound, h⟩ := exists_of_bind_eq_ok h
  obtain ⟨withShared, hshared, h⟩ := exists_of_bind_eq_ok h
  obtain ⟨sources, hsources, h⟩ := exists_of_bind_eq_ok h
  cases h
  exact ⟨⟨entry, siblings, layouts, extras, _, found, withShared, hprimary, hlayouts, hextras, rfl,
    hfound, hshared, hsources, rfl⟩⟩

namespace Stages

variable {layout : Option Text} {target : Target} {d : Document}

/-- Going through the stages gives the document. -/
theorem assembleFor_eq_ok (st : site.Stages layout target d) :
    site.assembleFor layout target = .ok d := by
  obtain ⟨entry, siblings, layouts, extras, base, found, withShared, hprimary, hlayouts, hextras,
    rfl, hfound, hshared, hsources, hname⟩ := st
  rw [Site.assembleFor_eq, hprimary]
  unfold sharedFolder at hshared
  simp only [bind, Except.bind, assembleFrom, hlayouts, hextras, hfound, hshared, hsources,
    ← hname]
  rfl

@[simp] theorem kind_withLayout (layout : Option Text) (entry : Source) :
    (site.withLayout layout entry).kind = entry.kind := by
  unfold withLayout
  split <;> rfl

@[simp] theorem name_withLayout (layout : Option Text) (entry : Source) :
    (site.withLayout layout entry).name = entry.name := by
  unfold withLayout
  split <;> rfl

theorem base_eq_collect (st : site.Stages layout target d) :
    st.base =
      collect [] (st.layouts ++ site.withLayout layout st.entry :: st.siblings ++ st.extras) := by
  rw [st.base_eq, ← Source.collect_append]

theorem distinct_base (st : site.Stages layout target d) : Distinct st.base := by
  obtain ⟨added, hcollect, -, hdistinct, -⟩ := Source.exists_collect_eq []
    (st.layouts ++ site.withLayout layout st.entry :: st.siblings ++ st.extras)
  rw [st.base_eq_collect, hcollect]
  exact hdistinct List.Pairwise.nil

/-- Nothing that is collected is lost but to a source of its name. -/
theorem isAmong_base (st : site.Stages layout target d) {s : Source}
    (hs : s ∈ st.layouts ++ st.entry :: st.siblings ++ st.extras) : isAmong st.base s.name := by
  obtain ⟨added, hcollect, -, -, hnames⟩ := Source.exists_collect_eq []
    (st.layouts ++ site.withLayout layout st.entry :: st.siblings ++ st.extras)
  rw [st.base_eq_collect, hcollect]
  -- The layout of the entry does not change its name.
  have hname : s.name ∈ (st.layouts ++ site.withLayout layout st.entry :: st.siblings ++
      st.extras).map Source.name := by
    have := List.mem_map_of_mem (f := Source.name) hs
    simpa using this
  obtain ⟨t, ht, heq⟩ := List.mem_map.1 hname
  rw [← heq]
  exact hnames t ht

/-- What a document has on its own: its layouts, each once, then the entry, the other files of its
folder and the extra ones, as far as their names are not there yet. -/
structure Own (st : site.Stages layout target d) (entry siblings extras : List Source) : Prop where
  base_eq : st.base = st.layouts.eraseDupsBy Source.agree ++ entry ++ siblings ++ extras
  layout_kind : ∀ s ∈ st.layouts.eraseDupsBy Source.agree, s.kind = .layout
  entry_kind : ∀ s ∈ entry, s.kind = .entry
  entry_length : entry.length ≤ 1
  sibling_kind : ∀ s ∈ siblings, s.kind = .sibling
  followPaths : FollowPaths siblings (site.folderFiles target)
  extra_kind : ∀ s ∈ extras, s.kind = .extra

theorem exists_own (st : site.Stages layout target d) :
    ∃ entry siblings extras, st.Own entry siblings extras := by
  have hbase := st.base_eq_collect
  rw [Source.collect_append, Source.collect_append, Source.collect_nil,
    ← List.singleton_append, Source.collect_append] at hbase
  obtain ⟨entry, hentry, hentrySub, -⟩ := Source.exists_collect_eq
    (st.layouts.eraseDupsBy Source.agree) [site.withLayout layout st.entry]
  obtain ⟨siblings, hsiblings, hsiblingsSub, -⟩ := Source.exists_collect_eq
    (st.layouts.eraseDupsBy Source.agree ++ entry) st.siblings
  obtain ⟨extras, hextras, hextrasSub, -⟩ := Source.exists_collect_eq
    (st.layouts.eraseDupsBy Source.agree ++ entry ++ siblings) st.extras
  rw [hentry, hsiblings, hextras] at hbase
  obtain ⟨hentryKind, hsiblingKind, hpaths, -⟩ := of_primaryOf st.primary_eq
  refine ⟨entry, siblings, extras, hbase, ?_, ?_, hentrySub.length_le, ?_,
    hpaths.sublist hsiblingsSub, ?_⟩
  · intro s hs
    have hchain := layoutChain_of_layouts st.layouts_eq
    exact hchain.kind_eq s ((Source.eraseDupsBy_sublist _).subset hs)
  · intro s hs
    rw [List.mem_singleton.1 (hentrySub.subset hs), kind_withLayout, hentryKind]
  · intro s hs
    exact hsiblingKind s (hsiblingsSub.subset hs)
  · intro s hs
    obtain ⟨request, -, hextra⟩ :=
      exists_of_mem_right (forall₂_of_mapM st.extras_eq) s (hextrasSub.subset hs)
    exact (fields_of_extra hextra).1

theorem kind_ne_referenced (st : site.Stages layout target d) :
    ∀ s ∈ st.base, s.kind ≠ .referenced := by
  obtain ⟨entry, siblings, extras, hown⟩ := st.exists_own
  intro s hs hkind
  rw [hown.base_eq] at hs
  rcases List.mem_append.1 hs with hs | hs
  · rcases List.mem_append.1 hs with hs | hs
    · rcases List.mem_append.1 hs with hs | hs
      · simp [hown.layout_kind s hs] at hkind
      · simp [hown.entry_kind s hs] at hkind
    · simp [hown.sibling_kind s hs] at hkind
  · simp [hown.extra_kind s hs] at hkind

/-- What a document has besides: what it refers to, shared fragments, and what those refer to.
Nothing is referred to in the end that could still be added. -/
structure Added (st : site.Stages layout target d) (referenced shared later : List Source) :
    Prop where
  sources_eq : d.sources = st.base ++ referenced ++ shared ++ later
  referenced_kind : ∀ s ∈ referenced, s.kind = .referenced
  shared_kind : ∀ s ∈ shared, s.kind = .shared
  followPaths : FollowPaths shared (site.templateFiles site.sharedFolder true)
  later_kind : ∀ s ∈ later, s.kind = .referenced
  isAmong_shared : ∀ path ∈ site.templateFiles site.sharedFolder true, ∀ name,
    TemplateName.ofPath? site.sharedFolder site.options.extension path = some name →
    isAmong d.sources name
  settled : ∀ s ∈ d.sources, ∀ name ∈ site.mentioned s, site.IsSettled d.sources name
  distinct : Distinct d.sources
  justified : site.Justified d.sources

theorem exists_added (st : site.Stages layout target d) :
    ∃ referenced shared later, st.Added referenced shared later := by
  obtain ⟨referenced, hfound, hreferenced, hfirst, hdistinct, hjustified⟩ :=
    exists_discover_eq [] st.distinct_base (justified_of_forall_kind_ne st.kind_ne_referenced)
      st.found_eq
  rw [List.nil_append] at hfound
  obtain ⟨shared, hshared, hkind, hpaths, hdistinct, hnames⟩ :=
    exists_shares hdistinct st.withShared_eq
  have hjustified : site.Justified (st.found ++ shared) := by
    refine hjustified.append ?_
    intro before s after hs href
    have := hkind s (by simp [hs])
    simp [this] at href
  have hsources := st.sources_eq
  rw [hshared, List.drop_left] at hsources
  obtain ⟨later, hall, hlater, hsecond, hdistinct, hjustified⟩ :=
    exists_discover_eq _ hdistinct hjustified hsources
  have hsub : st.found ++ shared ⊆ d.sources := by
    rw [hall]
    exact List.subset_append_left _ _
  refine ⟨referenced, shared, later, hfound ▸ hall, hreferenced, hkind, hpaths, hlater, ?_, ?_,
    hdistinct, hjustified⟩
  · intro path hpath name hname
    exact Source.isAmong_mono hsub (hnames path hpath name hname)
  · -- What the first search opened is settled by what it found, and that is still there.
    intro s hs name hname
    rw [hall, List.append_assoc] at hs
    rcases List.mem_append.1 hs with hs | hs
    · have hsettled := hfirst s (hfound ▸ hs) name hname
      exact hsettled.mono (List.Subset.trans (List.subset_append_left _ _) hsub)
    · exact hsecond s hs name hname

end Stages

end Site

end ComponentTags
