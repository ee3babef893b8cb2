import Mathlib
import ComponentTags.Proofs.Document.Order

/-!
# Excluded files

A walk leaves out every folder that is excluded, with all that is in it. So the walk from the root
leaves a file out if the file or any folder around it is excluded. What is added to a document is
tested less: a walk that starts further down tests what is below its start, and a file that is
referred to is tested alone.
-/

namespace ComponentTags

/-- The names of folders and of a file, one in the other, from a folder with the given entries. -/
inductive FileTree.Leads : List (Text × FileTree) → List Text → Prop
  | file {entries : List (Text × FileTree)} {name : Text} {text? : Option Text}
      (hmem : (name, .file text?) ∈ entries) : Leads entries [name]
  | folder {entries inner : List (Text × FileTree)} {name : Text} {names : List Text}
      (hmem : (name, .folder inner) ∈ entries) (h : Leads inner names) :
      Leads entries (name :: names)

theorem FileTree.Leads.ne_nil {entries : List (Text × FileTree)} {names : List Text}
    (h : Leads entries names) : names ≠ [] := by
  cases h <;> exact List.cons_ne_nil _ _

/-- The names lead from a folder of the file system to a file. -/
def FileSystem.LeadsFrom (files : FileSystem) (folder : Text) (names : List Text) : Prop :=
  ∃ entries, files.node? folder = .ok (.folder entries) ∧ FileTree.Leads entries names

/-- The path of what the names lead to. -/
def Path.below (folder : Text) (names : List Text) : Text :=
  names.foldl join folder

namespace Site

variable {site : Site}

/-- Whether what the names lead to from a folder is excluded, or some folder on the way is. -/
def Prunes (site : Site) (folder : Text) : List Text → Prop
  | [] => False
  | name :: names =>
    site.excludes (Path.join folder name) ∨ Prunes site (Path.join folder name) names

theorem prunes_append {folder : Text} {names names' : List Text} :
    site.Prunes folder (names ++ names') ↔
      site.Prunes folder names ∨ site.Prunes (Path.below folder names) names' := by
  induction names generalizing folder with
  | nil => simp [Prunes, Path.below]
  | cons name names ih =>
    rw [List.cons_append, Prunes, Prunes, ih, or_assoc]
    rfl

theorem excludes_of_not_prunes {folder : Text} {names : List Text} (hne : names ≠ [])
    (h : ¬site.Prunes folder names) : ¬site.excludes (Path.below folder names) := by
  rw [← List.dropLast_append_getLast hne, prunes_append] at h
  intro hexcludes
  refine h (.inr (.inl ?_))
  rw [← List.dropLast_append_getLast hne, Path.below, List.foldl_append] at hexcludes
  exact hexcludes

/-- What is in an excluded folder is excluded too. -/
def Inherits (site : Site) : Prop :=
  ∀ folder name, '/' ∉ name → site.excludes folder → site.excludes (Path.join folder name)

theorem Inherits.excludes_below (hsite : site.Inherits) {folder : Text} {names : List Text}
    (hnames : ∀ name ∈ names, '/' ∉ name) (h : site.excludes folder) :
    site.excludes (Path.below folder names) := by
  induction names generalizing folder with
  | nil => exact h
  | cons name names ih =>
    obtain ⟨hname, hnames⟩ := List.forall_mem_cons.1 hnames
    exact ih hnames (hsite folder name hname h)

theorem Inherits.excludes_of_prunes (hsite : site.Inherits) {folder : Text} {names : List Text}
    (hnames : ∀ name ∈ names, '/' ∉ name) (h : site.Prunes folder names) :
    site.excludes (Path.below folder names) := by
  induction names generalizing folder with
  | nil => cases h
  | cons name names ih =>
    obtain ⟨-, hnames⟩ := List.forall_mem_cons.1 hnames
    change site.excludes (Path.below (Path.join folder name) names)
    rcases h with h | h
    · exact hsite.excludes_below hnames h
    · exact ih hnames h

/-! ## What a walk finds -/

/-- A walk finds what is led to and is a template file by its name, unless something on the way to
it is hidden or excluded. -/
theorem holds_iff {recursive : Bool} {folder path : Text} {entries : List (Text × FileTree)} :
    Holds site recursive folder entries path ↔
      ∃ names, FileTree.Leads entries names ∧ path = Path.below folder names ∧
        (recursive ∨ names.length = 1) ∧ (∀ name ∈ names, ¬isHidden name) ∧
        (∀ name ∈ names.getLast?, site.options.extension <:+ name) ∧
        ¬site.Prunes folder names := by
  constructor
  · intro h
    induction h with
    | @file folder name entries text? hmem hhidden hexcluded hextension =>
      exact ⟨[name], .file hmem, rfl, .inr rfl, by simpa using hhidden, by simpa using hextension,
        by simpa [Prunes] using hexcluded⟩
    | @folder folder name path entries inner hrecursive hmem hhidden hexcluded _ ih =>
      obtain ⟨names, hleads, rfl, -, hnames, hextension, hprunes⟩ := ih
      refine ⟨name :: names, .folder hmem hleads, rfl, .inl hrecursive,
        List.forall_mem_cons.2 ⟨hhidden, hnames⟩, ?_, fun h => h.elim hexcluded hprunes⟩
      rwa [List.getLast?_cons_of_ne_nil hleads.ne_nil]
  · rintro ⟨names, hleads, rfl, hrecursive, hnames, hextension, hprunes⟩
    induction hleads generalizing folder with
    | @file entries name text? hmem =>
      refine .file hmem (hnames name (by simp)) ?_ (hextension name (by simp))
      simpa [Prunes] using hprunes
    | @folder entries inner name names hmem hleads ih =>
      obtain ⟨hhidden, hnames⟩ := List.forall_mem_cons.1 hnames
      have hlong : (name :: names).length ≠ 1 := by
        have := List.length_pos_of_ne_nil hleads.ne_nil
        rw [List.length_cons]
        omega
      have hrecursive : recursive := hrecursive.resolve_right hlong
      rw [Prunes, not_or] at hprunes
      rw [List.getLast?_cons_of_ne_nil hleads.ne_nil] at hextension
      exact .folder hrecursive hmem hhidden hprunes.1
        (ih (.inl hrecursive) hnames hextension hprunes.2)

theorem mem_templateFiles_iff_leads {recursive : Bool} {folder path : Text} :
    path ∈ site.templateFiles folder recursive ↔
      ∃ names, site.files.LeadsFrom folder names ∧ path = Path.below folder names ∧
        (recursive ∨ names.length = 1) ∧ (∀ name ∈ names, ¬isHidden name) ∧
        (∀ name ∈ names.getLast?, site.options.extension <:+ name) ∧
        ¬site.Prunes folder names := by
  simp only [mem_templateFiles_iff, holds_iff, FileSystem.LeadsFrom]
  constructor
  · rintro ⟨entries, hnode, names, hleads, hfound⟩
    exact ⟨names, ⟨entries, hnode, hleads⟩, hfound⟩
  · rintro ⟨names, ⟨entries, hnode, hleads⟩, hfound⟩
    exact ⟨entries, hnode, names, hleads, hfound⟩

/-! ## What a document adds -/

/-- The walk from the root goes by what lies above the start of another walk, as far as that has
tested what lies below. -/
theorem prunes_iff_above {folder : Text} {names above : List Text}
    (h : ¬site.Prunes folder names) (habove : folder = Path.below site.root above) :
    site.Prunes site.root (above ++ names) ↔ site.Prunes site.root above := by
  rw [prunes_append, ← habove]
  exact or_iff_left h

/-- The walk from the root goes by the folder of a file that is not excluded itself. -/
theorem prunes_iff_dropLast {path : Text} {names : List Text} (h : ¬site.excludes path)
    (hpath : path = Path.below site.root names) :
    site.Prunes site.root names ↔ site.Prunes site.root names.dropLast := by
  by_cases hne : names = []
  · subst hne
    rfl
  · have hsplit := List.dropLast_append_getLast hne
    conv_lhs => rw [← hsplit, prunes_append]
    rw [hpath, ← hsplit, Path.below, List.foldl_append] at h
    refine or_iff_left ?_
    rintro (hlast | hnone)
    · exact h hlast
    · exact hnone

/-- A file that a walk from a folder finds. Whether the walk from the root finds it too is up to
what lies above the folder. -/
def FoundFrom (site : Site) (folder path : Text) : Prop :=
  ∃ names, site.files.LeadsFrom folder names ∧ path = Path.below folder names ∧
    ¬site.Prunes folder names ∧
    ∀ above, folder = Path.below site.root above →
      (site.Prunes site.root (above ++ names) ↔ site.Prunes site.root above)

theorem foundFrom_of_mem_templateFiles {folder path : Text} {recursive : Bool}
    (h : path ∈ site.templateFiles folder recursive) : site.FoundFrom folder path := by
  obtain ⟨names, hleads, hpath, _, _, _, hprunes⟩ := mem_templateFiles_iff_leads.1 h
  exact ⟨names, hleads, hpath, hprunes, fun above habove => prunes_iff_above hprunes habove⟩

theorem FoundFrom.not_excludes {folder path : Text} (h : site.FoundFrom folder path) :
    ¬site.excludes path := by
  obtain ⟨names, ⟨_, _, hleads⟩, rfl, hprunes, _⟩ := h
  exact excludes_of_not_prunes hleads.ne_nil hprunes

/-- Every source that was added for a reference is the one that its name refers to. -/
def AddedByName (site : Site) (sources : List Source) : Prop :=
  ∀ s ∈ sources, s.kind = .referenced → site.referenced? s.name = some (.ok s)

theorem AddedByName.append {found added : List Source} (h : site.AddedByName found)
    (hadded : ∀ s ∈ added, s.kind ≠ .referenced) : site.AddedByName (found ++ added) := by
  intro s hs hkind
  rcases List.mem_append.1 hs with hs | hs
  · exact h s hs hkind
  · exact absurd hkind (hadded s hs)

theorem addedByName_of_discover {found queue result : List Source}
    (h : site.AddedByName found) (hresult : site.discover found queue = .ok result) :
    site.AddedByName result := by
  refine forall_of_discover (fun name s hr _ => ?_) h hresult
  rw [(fields_of_referenced? hr).2]
  exact hr

namespace Stages

variable {layout : Option Text} {target : Target} {d : Document}

theorem addedByName (st : site.Stages layout target d) : site.AddedByName d.sources := by
  have hbase : site.AddedByName st.base := fun s hs hkind =>
    absurd hkind (st.kind_ne_referenced s hs)
  have hfound := addedByName_of_discover hbase st.found_eq
  refine addedByName_of_discover ?_ st.sources_eq
  obtain ⟨-, -, -, -, hdistinct, -⟩ := exists_discover_eq [] st.distinct_base
    (justified_of_forall_kind_ne st.kind_ne_referenced) st.found_eq
  obtain ⟨shared, hshared, hshares⟩ := exists_shares hdistinct st.withShared_eq
  rw [hshared]
  exact hfound.append fun s hs => by simp [hshares.kind_eq s hs]

theorem exists_path_of_referenced (st : site.Stages layout target d) {s : Source}
    (hs : s ∈ d.sources) (hkind : s.kind = .referenced) :
    s.path = some (site.pathOf s.name) ∧ ¬site.excludes (site.pathOf s.name) :=
  path_of_referenced? (st.addedByName s hs hkind)

theorem exists_path_of_shared (st : site.Stages layout target d) {s : Source}
    (hs : s ∈ d.sources) (hkind : s.kind = .shared) :
    ∃ path ∈ site.templateFiles site.sharedFolder true, s.path = some path := by
  obtain ⟨parts, hsources, _, _, _, hshared, _⟩ := st.exists_sections
  rw [hsources] at hs
  exact hshared.exists_path ((parts.mem_of_kind hs).2 hkind)

theorem exists_path_of_sibling (st : site.Stages layout target d) {s : Source}
    (hs : s ∈ d.sources) (hkind : s.kind = .sibling) :
    ∃ path ∈ site.folderFiles target, s.path = some path := by
  obtain ⟨parts, hsources, _, hsiblings, _⟩ := st.exists_sections
  rw [hsources] at hs
  exact hsiblings.exists_path ((parts.mem_of_kind hs).1 hkind)

end Stages

theorem exists_foundFrom_of_mem_folderFiles {target : Target} {path : Text}
    (h : path ∈ site.folderFiles target) :
    ∃ request extras folder, target = .named request extras ∧ folder <+: site.normalize request ∧
      site.FoundFrom (Path.join site.root folder) path := by
  cases target with
  | text source => cases h
  | named request extras =>
    simp only [folderFiles] at h
    split at h
    · split at h
      · cases h
      · next folder hfolder =>
        exact ⟨request, extras, folder, rfl, prefix_of_folderOf? hfolder,
          foundFrom_of_mem_templateFiles h⟩
    · exact ⟨request, extras, _, rfl, List.prefix_refl _, foundFrom_of_mem_templateFiles h⟩

/-- The walk from the root finds the template files that are neither hidden nor excluded and in no
hidden or excluded folder. Of what is added to a document a file that is referred to is tested for
the path that its name gives, and a file that another walk finds is tested from the start of that
walk on. So none of them is excluded itself, and the walk from the root leaves one out exactly if it
leaves out its folder, which it does not where exclusion is inherited. -/
theorem exclusion_of_sources {layout : Option Text} {target : Target} {d : Document}
    (h : site.assembleFor layout target = .ok d) :
    (∀ path, path ∈ site.templateFiles site.root true ↔
      ∃ names, site.files.LeadsFrom site.root names ∧ path = Path.below site.root names ∧
        (∀ name ∈ names, ¬isHidden name) ∧
        (∀ name ∈ names.getLast?, site.options.extension <:+ name) ∧
        ¬site.Prunes site.root names) ∧
    ∀ s ∈ d.sources, s.kind = .sibling ∨ s.kind = .referenced ∨ s.kind = .shared →
      ∃ path, s.path = some path ∧ ¬site.excludes path ∧
        (s.kind = .sibling → ∃ request extras folder, target = .named request extras ∧
          folder <+: site.normalize request ∧ site.FoundFrom (Path.join site.root folder) path) ∧
        (s.kind = .referenced → path = site.pathOf s.name) ∧
        (s.kind = .shared → site.FoundFrom site.sharedFolder path) ∧
        ∀ names, path = Path.below site.root names →
          (site.Prunes site.root names ↔ site.Prunes site.root names.dropLast) ∧
          (site.Inherits → (∀ name ∈ names, '/' ∉ name) → ¬site.Prunes site.root names) := by
  obtain ⟨st⟩ := nonempty_stages h
  constructor
  · intro path
    simp only [mem_templateFiles_iff_leads, true_or, true_and]
  intro s hs hkinds
  have hrest : ∀ {path : Text}, ¬site.excludes path → ∀ names, path = Path.below site.root names →
      (site.Prunes site.root names ↔ site.Prunes site.root names.dropLast) ∧
        (site.Inherits → (∀ name ∈ names, '/' ∉ name) → ¬site.Prunes site.root names) := by
    intro path hexcludes names hpath
    refine ⟨prunes_iff_dropLast hexcludes hpath, fun hsite hnames hprunes => ?_⟩
    exact hexcludes (hpath ▸ hsite.excludes_of_prunes hnames hprunes)
  rcases hkinds with hkind | hkind | hkind
  · obtain ⟨path, hmem, hpath⟩ := st.exists_path_of_sibling hs hkind
    obtain ⟨request, extras, folder, htarget, hfolder, hfound⟩ :=
      exists_foundFrom_of_mem_folderFiles hmem
    refine ⟨path, hpath, hfound.not_excludes, ?_, by simp [hkind], by simp [hkind],
      hrest hfound.not_excludes⟩
    exact fun _ => ⟨request, extras, folder, htarget, hfolder, hfound⟩
  · obtain ⟨hpath, hexcludes⟩ := st.exists_path_of_referenced hs hkind
    exact ⟨_, hpath, hexcludes, by simp [hkind], fun _ => rfl, by simp [hkind], hrest hexcludes⟩
  · obtain ⟨path, hmem, hpath⟩ := st.exists_path_of_shared hs hkind
    have hfound := foundFrom_of_mem_templateFiles hmem
    exact ⟨path, hpath, hfound.not_excludes, by simp [hkind], by simp [hkind], fun _ => hfound,
      hrest hfound.not_excludes⟩

/-- A page that refers to a file in another folder, and to a second one with a separator too
many. -/
def draftPage : Source :=
  .ofText "page".toList (some "/page.tmpl".toList) .entry
    "\x7b% include \"drafts/wip\" %\x7d\x7b% include \"notes//old\" %\x7d".toList

def draftFragments : List Source :=
  [.ofText "drafts/wip".toList (some "/drafts/wip.tmpl".toList) .referenced "wip".toList,
    .ofText "notes//old".toList (some "/notes//old.tmpl".toList) .referenced "old".toList]

/-- A site that excludes the folder of the first of these files, and the second one itself. -/
def draftSite : Site where
  files := {
    top := .folder [
      ("page.tmpl".toList, .file (some draftPage.text)),
      ("drafts".toList, .folder [("wip.tmpl".toList, .file (some "wip".toList))]),
      ("notes".toList, .folder [("old.tmpl".toList, .file (some "old".toList))])] }
  root := ['/']
  options := {
    extension := ".tmpl".toList
    sharedFolder := "shared".toList
    componentsFolder := "components".toList
    debug := false
    autoescape := true
    exclude := ["drafts".toList, "notes/old.tmpl".toList]
    pattern? := Glob.accepts? }

def draftDocument : Document where
  entry := "page".toList
  sources := draftPage :: draftFragments

theorem discover_draftSite :
    draftSite.discover [draftPage] [draftPage] = .ok draftDocument.sources := by
  have hopen : draftSite.SearchStep ⟨[draftPage], [], [draftPage]⟩
      ⟨[draftPage], ["drafts/wip".toList, "notes//old".toList], []⟩ :=
    .of_mentioned (by cbv)
  have hfirst : draftSite.SearchStep
      ⟨[draftPage], ["drafts/wip".toList, "notes//old".toList], []⟩
      ⟨[draftPage, draftFragments[0]], ["notes//old".toList], [draftFragments[0]]⟩ :=
    .add (by rw [Bool.not_eq_true]; cbv) (by cbv)
  have hsecond : draftSite.SearchStep
      ⟨[draftPage, draftFragments[0]], ["notes//old".toList], [draftFragments[0]]⟩
      ⟨draftDocument.sources, [], draftFragments⟩ :=
    .add (by rw [Bool.not_eq_true]; cbv) (by cbv)
  -- The fragments mention nothing.
  have hrest : ∀ s ∈ draftFragments, ∀ queue, draftSite.SearchStep
      ⟨draftDocument.sources, [], s :: queue⟩ ⟨draftDocument.sources, [], queue⟩ := by
    have hnone : ∀ s ∈ draftFragments, draftSite.mentioned s = [] := by
      simp only [draftFragments, List.forall_mem_cons]
      exact ⟨by cbv, by cbv, by simp⟩
    intro s hs queue
    exact .of_mentioned (hnone s hs)
  refine discover_eq_of_run ?_ .done
  exact .head hopen (.head hfirst (.head hsecond (.head (hrest _ (by simp [draftFragments]) _)
    (.single (hrest _ (by simp [draftFragments]) _)))))

theorem assembleFor_draftSite :
    draftSite.assembleFor none (.named "page".toList []) = .ok draftDocument := by
  have hshared : draftSite.addShared draftSite.sharedFolder draftDocument.sources
      (draftSite.templateFiles draftSite.sharedFolder true) = .ok draftDocument.sources := by
    cbv
  have hlater : draftSite.discover draftDocument.sources [] = .ok draftDocument.sources :=
    discover_eq_of_run .refl .done
  exact Stages.assembleFor_eq_ok {
    entry := draftPage
    siblings := []
    layouts := []
    extras := []
    base := [draftPage]
    found := draftDocument.sources
    withShared := draftDocument.sources
    primary_eq := by cbv
    layouts_eq := by cbv
    extras_eq := rfl
    base_eq := by cbv
    found_eq := discover_draftSite
    withShared_eq := hshared
    sources_eq := by rw [List.drop_length]; exact hlater
    name_eq := rfl }

theorem leadsFrom_draftSite :
    draftSite.files.LeadsFrom draftSite.root ["drafts".toList, "wip.tmpl".toList] ∧
      draftSite.files.LeadsFrom draftSite.root ["notes".toList, "old.tmpl".toList] := by
  have hroot : draftSite.files.node? draftSite.root = .ok draftSite.files.top := by
    cbv
  constructor
  · exact ⟨_, hroot, .folder (.tail _ (.head _)) (.file (.head _))⟩
  · exact ⟨_, hroot, .folder (.tail _ (.tail _ (.head _))) (.file (.head _))⟩

/-- The file in the excluded folder is tested alone. -/
theorem exclusion_of_sources_draftSite :
    draftSite.assembleFor none (.named "page".toList []) = .ok draftDocument ∧
      (∀ s ∈ draftDocument.sources, s.kind = .referenced →
        s.path = some (draftSite.pathOf s.name) ∧ ¬draftSite.excludes (draftSite.pathOf s.name)) ∧
      (draftSite.Prunes draftSite.root ["drafts".toList, "wip.tmpl".toList] ↔
        draftSite.Prunes draftSite.root ["drafts".toList]) := by
  obtain ⟨-, hsources⟩ := exclusion_of_sources assembleFor_draftSite
  refine ⟨assembleFor_draftSite, ?_, ?_⟩
  · intro s hs hkind
    obtain ⟨path, hpath, hexcludes, -, hname, -⟩ := hsources s hs (.inr (.inl hkind))
    obtain rfl := hname hkind
    exact ⟨hpath, hexcludes⟩
  · obtain ⟨path, hpath, -, -, -, -, hnames⟩ :=
      hsources draftFragments[0] (.tail _ (.head _)) (.inr (.inl rfl))
    cases hpath
    exact (hnames _ (by cbv)).1

/-- Both fragments are added, though the one is in an excluded folder and the other is an excluded
file. -/
theorem exists_prunes_draftSite :
    ∃ d, draftSite.assembleFor none (.named "page".toList []) = .ok d ∧
      ∀ s ∈ draftFragments, s ∈ d.sources ∧ s.kind = .referenced ∧
        ∃ path names, s.path = some path ∧ draftSite.files.LeadsFrom draftSite.root names ∧
          Path.components path = Path.components (Path.below draftSite.root names) ∧
          draftSite.Prunes draftSite.root names := by
  refine ⟨draftDocument, assembleFor_draftSite, ?_⟩
  simp only [draftFragments, List.forall_mem_cons]
  refine ⟨⟨.tail _ (.head _), rfl, _, _, rfl, leadsFrom_draftSite.1, by cbv, .inl (by cbv)⟩,
    ⟨.tail _ (.tail _ (.head _)), rfl, _, _, rfl, leadsFrom_draftSite.2, by cbv,
      .inr (.inl (by cbv))⟩, by simp⟩

end Site

end ComponentTags
