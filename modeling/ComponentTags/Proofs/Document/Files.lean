import Mathlib
import ComponentTags.Proofs.Document.Stages

/-!
# Template files and their names

The template files of a folder come in the order of their paths. All of them lie below the folder by
their components, so each has a name, also one that starts from a folder around it.
-/

namespace ComponentTags

namespace Path

theorem le_iff {a b : Text} : le a b ↔ components a ≤ components b := by
  simp [le]

theorem pairwise_mergeSort_le (paths : List Text) :
    (paths.mergeSort le).Pairwise fun a b => le a b := by
  refine List.pairwise_mergeSort ?_ ?_ paths
  · intro a b c hab hbc
    exact le_iff.2 ((le_iff.1 hab).trans (le_iff.1 hbc))
  · intro a b
    rw [Bool.or_eq_true, le_iff, le_iff]
    exact le_total _ _

end Path

namespace TemplateName

theorem normalize_prefix (extension name : Text) :
    ∃ s : Text, normalize extension name <+: s.dropWhile Path.isSeparator := by
  have hstrip : ∀ s, Text.stripWhile Path.isSeparator s <+: s.dropWhile Path.isSeparator := by
    intro s
    have hsuffix := List.dropWhile_suffix (l := (s.dropWhile Path.isSeparator).reverse)
      Path.isSeparator
    rw [Text.stripWhile, Text.dropEndWhile, ← List.reverse_suffix, List.reverse_reverse]
    exact hsuffix
  refine ⟨dropHere (Text.substitute '\\' '/' (Text.trim name)), ?_⟩
  simp only [normalize]
  split
  · exact hstrip _
  · cases h : Text.beforeEnding? extension
      (Text.stripWhile Path.isSeparator (dropHere (Text.substitute '\\' '/' (Text.trim name)))) with
    | none => exact hstrip _
    | some rest =>
      unfold Text.beforeEnding? at h
      split at h
      · cases h
        exact (List.take_prefix _ _).trans (hstrip _)
      · cases h

theorem head?_ne_of_prefix_normalize {extension name s : Text}
    (h : s <+: normalize extension name) : s.head? ≠ some '/' := by
  obtain ⟨t, hprefix⟩ := normalize_prefix extension name
  intro hhead
  obtain ⟨rest, hrest⟩ := h.trans hprefix
  have hdrop : (t.dropWhile Path.isSeparator).head? = some '/' := by
    rw [← hrest, List.head?_append, hhead, Option.some_or]
  have hnot := List.head?_dropWhile_not Path.isSeparator t
  rw [hdrop] at hnot
  exact absurd hnot (by decide)

end TemplateName

namespace Site

variable {site : Site}

theorem pairwise_templateFiles (site : Site) (folder : Text) (recursive : Bool) :
    (site.templateFiles folder recursive).Pairwise fun a b => Path.le a b := by
  unfold templateFiles
  split
  · exact Path.pairwise_mergeSort_le _
  · exact .nil

theorem pairwise_folderFiles (site : Site) (target : Target) :
    (site.folderFiles target).Pairwise fun a b => Path.le a b := by
  cases target with
  | text source => exact .nil
  | named request extras =>
    simp only [folderFiles]
    split
    · split
      · exact .nil
      · exact pairwise_templateFiles ..
    · exact pairwise_templateFiles ..

/-! ## What counts as a template file -/

/-- The template files below a folder with the given entries: files that end in the extension,
neither hidden nor excluded and in no hidden or excluded folder. -/
inductive Holds (site : Site) (recursive : Bool) : Text → List (Text × FileTree) → Text → Prop
  | file {folder name : Text} {entries : List (Text × FileTree)} {text? : Option Text}
      (hmem : (name, .file text?) ∈ entries) (hhidden : ¬isHidden name)
      (hexcluded : ¬site.excludes (Path.join folder name))
      (hextension : site.options.extension <:+ name) :
      Holds site recursive folder entries (Path.join folder name)
  | folder {folder name path : Text} {entries inner : List (Text × FileTree)}
      (hrecursive : recursive) (hmem : (name, .folder inner) ∈ entries) (hhidden : ¬isHidden name)
      (hexcluded : ¬site.excludes (Path.join folder name))
      (h : Holds site recursive (Path.join folder name) inner path) :
      Holds site recursive folder entries path

theorem Holds.of_cons {recursive : Bool} {folder path : Text} {e : Text × FileTree}
    {entries : List (Text × FileTree)} (h : Holds site recursive folder entries path) :
    Holds site recursive folder (e :: entries) path := by
  cases h with
  | file hmem hhidden hexcluded hextension =>
    exact .file (List.mem_cons_of_mem _ hmem) hhidden hexcluded hextension
  | folder hrecursive hmem hhidden hexcluded h =>
    exact .folder hrecursive (List.mem_cons_of_mem _ hmem) hhidden hexcluded h

theorem mem_filesIn_of_mem {recursive : Bool} {folder name path : Text} {tree : FileTree}
    {entries : List (Text × FileTree)} (hmem : (name, tree) ∈ entries) (hhidden : ¬isHidden name)
    (hexcluded : ¬site.excludes (Path.join folder name))
    (h : path ∈ filesOf site recursive (Path.join folder name) name tree) :
    path ∈ filesIn site recursive folder entries := by
  induction entries with
  | nil => simp at hmem
  | cons e entries ih =>
    rw [filesIn, List.mem_append]
    rcases List.mem_cons.1 hmem with rfl | hmem
    · simp [hhidden, hexcluded, h]
    · exact .inr (ih hmem)

/-- Going through the entries of a folder finds template files only. -/
theorem holds_of_mem_filesIn {recursive : Bool} {folder path : Text} :
    (entries : List (Text × FileTree)) → path ∈ filesIn site recursive folder entries →
      Holds site recursive folder entries path
  | [], h => by simp [filesIn] at h
  | (name, tree) :: rest, h => by
    rw [filesIn] at h
    rcases List.mem_append.1 h with h | h
    · split at h
      · simp at h
      · next hshown =>
        rw [Bool.or_eq_true, not_or] at hshown
        cases tree with
        | file text? =>
          rw [filesOf] at h
          split at h
          · next hextension =>
            rw [List.mem_singleton.1 h]
            exact .file (List.mem_cons_self ..) hshown.1 hshown.2
              (List.isSuffixOf_iff_suffix.1 hextension)
          · simp at h
        | folder inner =>
          rw [filesOf] at h
          split at h
          · next hrecursive =>
            exact .folder hrecursive (List.mem_cons_self ..) hshown.1 hshown.2
              (holds_of_mem_filesIn inner h)
          · simp at h
    · exact (holds_of_mem_filesIn rest h).of_cons

theorem mem_filesIn_iff {recursive : Bool} {folder path : Text}
    {entries : List (Text × FileTree)} :
    path ∈ filesIn site recursive folder entries ↔ Holds site recursive folder entries path := by
  constructor
  · exact holds_of_mem_filesIn entries
  · intro h
    induction h with
    | file hmem hhidden hexcluded hextension =>
      refine mem_filesIn_of_mem hmem hhidden hexcluded ?_
      rw [filesOf, if_pos (List.isSuffixOf_iff_suffix.2 hextension)]
      exact List.mem_singleton_self _
    | folder hrecursive hmem hhidden hexcluded _ ih =>
      refine mem_filesIn_of_mem hmem hhidden hexcluded ?_
      rw [filesOf, if_pos hrecursive]
      exact ih

theorem mem_templateFiles_iff {recursive : Bool} {folder path : Text} :
    path ∈ site.templateFiles folder recursive ↔
      ∃ entries, site.files.node? folder = .ok (.folder entries) ∧
        Holds site recursive folder entries path := by
  unfold templateFiles
  split
  · next entries hnode => simp [List.mem_mergeSort, mem_filesIn_iff, hnode]
  · next hnode =>
    constructor
    · simp
    · rintro ⟨entries, hentries, -⟩
      exact absurd hentries (hnode entries)

/-! ## Names -/

theorem Holds.components_prefix {recursive : Bool} {folder path : Text}
    {entries : List (Text × FileTree)} (h : Holds site recursive folder entries path)
    (hnames : ∀ name ∈ FileTree.entriesNames entries, '/' ∉ name) :
    Path.components folder <+: Path.components path := by
  have hbelow : ∀ {folder name : Text}, '/' ∉ name →
      Path.components folder <+: Path.components (Path.join folder name) := by
    intro folder name hname
    refine Path.components_prefix_join folder ?_
    intro hhead
    exact hname (List.mem_of_mem_head? hhead)
  induction h with
  | file hmem _ _ _ =>
    exact hbelow (hnames _ (FileTree.mem_entriesNames hmem (List.mem_cons_self ..)))
  | folder _ hmem _ _ _ ih =>
    have hname := hnames _ (FileTree.mem_entriesNames hmem (List.mem_cons_self ..))
    refine (hbelow hname).trans (ih ?_)
    intro name hname
    exact hnames name (FileTree.mem_entriesNames hmem (List.mem_cons_of_mem _ hname))

theorem isSome_ofPath? {base folder path : Text} {recursive : Bool}
    (hfiles : site.files.HasFileNames) (hbase : Path.components base <+: Path.components folder)
    (h : path ∈ site.templateFiles folder recursive) :
    (TemplateName.ofPath? base site.options.extension path).isSome := by
  obtain ⟨entries, hnode, hpath⟩ := mem_templateFiles_iff.1 h
  have hfolder := hpath.components_prefix (FileSystem.names_of_node? hfiles hnode)
  rw [TemplateName.ofPath?, Option.isSome_map]
  exact Path.isSome_relativeTo? (hbase.trans hfolder)

theorem prefix_of_folderOf? {name folder : Text} (h : folderOf? name = some folder) :
    folder <+: name := by
  have hsuffix : name.reverse.dropWhile (· ≠ '/') <:+ name.reverse := List.dropWhile_suffix _
  unfold folderOf? at h
  split at h
  · cases h
  · next c rest hrest =>
    cases h
    rw [hrest] at hsuffix
    have hfolder := (List.suffix_cons c rest).trans hsuffix
    rw [← List.reverse_suffix, List.reverse_reverse]
    exact hfolder

theorem isSome_ofPath?_of_mem_folderFiles {target : Target} {path : Text}
    (hfiles : site.files.HasFileNames) (h : path ∈ site.folderFiles target) :
    (TemplateName.ofPath? site.root site.options.extension path).isSome := by
  cases target with
  | text source => simp [folderFiles] at h
  | named request extras =>
    have hbelow : ∀ folder, folder <+: site.normalize request →
        Path.components site.root <+: Path.components (Path.join site.root folder) :=
      fun folder hfolder =>
        Path.components_prefix_join site.root (TemplateName.head?_ne_of_prefix_normalize hfolder)
    simp only [folderFiles] at h
    split at h
    · split at h
      · simp at h
      · next folder hfolder =>
        exact isSome_ofPath? hfiles (hbelow folder (prefix_of_folderOf? hfolder)) h
    · exact isSome_ofPath? hfiles (hbelow _ (List.prefix_refl _)) h

end Site

end ComponentTags
