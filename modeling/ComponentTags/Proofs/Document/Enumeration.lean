import Mathlib
import ComponentTags.Proofs.Document.Exclusion

/-!
# The order of entries

A folder lists its entries in any order. Which template files a walk finds is told by the names that
lead to them, and the list of their paths is the same for every order: names are distinct in a
folder, so the paths differ by their components, and it is by components that they are sorted.
-/

namespace ComponentTags

namespace FileTree

def entries : FileTree → List (Text × FileTree)
  | .file _ => []
  | .folder entries => entries

/-- The entries of each folder have distinct names, and names that a file can have. -/
inductive WellNamed : FileTree → Prop
  | file (text? : Option Text) : WellNamed (.file text?)
  | empty : WellNamed (.folder [])
  | cons {name : Text} {tree : FileTree} {rest : List (Text × FileTree)}
      (hname : name ≠ [] ∧ '/' ∉ name) (hfresh : name ∉ rest.map Prod.fst)
      (htree : WellNamed tree) (hrest : WellNamed (.folder rest)) :
      WellNamed (.folder ((name, tree) :: rest))

/-- The same tree with the entries of its folders in another order. -/
inductive Reordered : FileTree → FileTree → Prop
  | file (text? : Option Text) : Reordered (.file text?) (.file text?)
  | empty : Reordered (.folder []) (.folder [])
  | cons (name : Text) {tree tree' : FileTree} {rest rest' : List (Text × FileTree)}
      (htree : Reordered tree tree') (hrest : Reordered (.folder rest) (.folder rest')) :
      Reordered (.folder ((name, tree) :: rest)) (.folder ((name, tree') :: rest'))
  | swap (e e' : Text × FileTree) (rest : List (Text × FileTree)) :
      Reordered (.folder (e :: e' :: rest)) (.folder (e' :: e :: rest))
  | trans {tree tree' tree'' : FileTree} (h : Reordered tree tree') (h' : Reordered tree' tree'') :
      Reordered tree tree''

theorem wellNamed_cons_iff {name : Text} {tree : FileTree} {rest : List (Text × FileTree)} :
    WellNamed (.folder ((name, tree) :: rest)) ↔
      (name ≠ [] ∧ '/' ∉ name) ∧ name ∉ rest.map Prod.fst ∧ WellNamed tree ∧
        WellNamed (.folder rest) := by
  constructor
  · rintro (_ | _ | ⟨hname, hfresh, htree, hrest⟩)
    exact ⟨hname, hfresh, htree, hrest⟩
  · rintro ⟨hname, hfresh, htree, hrest⟩
    exact .cons hname hfresh htree hrest

namespace WellNamed

variable {tree child : FileTree} {name : Text}

theorem of_mem (h : WellNamed tree) (hmem : (name, child) ∈ tree.entries) :
    (name ≠ [] ∧ '/' ∉ name) ∧ WellNamed child := by
  induction h with
  | file | empty => cases hmem
  | cons hname _ htree _ _ ih =>
    rcases List.mem_cons.1 hmem with heq | hmem
    · cases heq
      exact ⟨hname, htree⟩
    · exact ih hmem

theorem child?_eq_some (h : WellNamed tree) (hmem : (name, child) ∈ tree.entries) :
    child? name tree.entries = some child := by
  induction h with
  | file | empty => cases hmem
  | cons _ hfresh _ _ _ ih =>
    rw [entries, child?]
    rcases List.mem_cons.1 hmem with heq | hmem
    · cases heq
      rw [if_pos rfl]
    · have hne : _ ≠ name := fun heq => hfresh (List.mem_map.2 ⟨_, hmem, heq.symm⟩)
      rw [if_neg hne]
      exact ih hmem

theorem of_follow {pieces : List Text} (h : WellNamed tree) {found : FileTree}
    (hfound : follow [] tree pieces = .ok found) : WellNamed found := by
  refine follow_invariant ?_ hfound h (by simp)
  intro name entries child hchild hentries
  exact (hentries.of_mem (mem_of_child? hchild)).2

theorem of_leads {names : List Text} (h : WellNamed tree) (hleads : Leads tree.entries names) :
    ∀ name ∈ names, name ≠ [] ∧ '/' ∉ name := by
  generalize hentries : tree.entries = entries at hleads
  induction hleads generalizing tree with
  | file hmem => simpa using (h.of_mem (hentries ▸ hmem)).1
  | folder hmem _ ih =>
    obtain ⟨hname, hinner⟩ := h.of_mem (hentries ▸ hmem)
    exact List.forall_mem_cons.2 ⟨hname, ih hinner rfl⟩

end WellNamed

namespace Reordered

variable {tree tree' : FileTree}

theorem refl : (tree : FileTree) → Reordered tree tree
  | .file text? => .file text?
  | .folder [] => .empty
  | .folder ((name, tree) :: rest) => .cons name (refl tree) (refl (.folder rest))

theorem symm (h : Reordered tree tree') : Reordered tree' tree := by
  induction h with
  | file text? => exact .file text?
  | empty => exact .empty
  | cons name _ _ ih ihrest => exact .cons name ih ihrest
  | swap e e' rest => exact .swap e' e rest
  | trans _ _ ih ih' => exact .trans ih' ih

theorem eq_file_iff (h : Reordered tree tree') (text? : Option Text) :
    tree = .file text? ↔ tree' = .file text? := by
  induction h with
  | file => rfl
  | empty => rfl
  | cons | swap => simp
  | trans _ _ ih ih' => exact ih.trans ih'

theorem eq_folder {entries : List (Text × FileTree)} (h : Reordered (.folder entries) tree) :
    tree = .folder tree.entries := by
  cases tree with
  | file text? => exact absurd ((h.eq_file_iff text?).2 rfl) (by simp)
  | folder entries => rfl

theorem perm_names (h : Reordered tree tree') :
    (tree.entries.map Prod.fst).Perm (tree'.entries.map Prod.fst) := by
  induction h with
  | file | empty => exact .nil
  | cons name _ _ _ ih => exact ih.cons name
  | swap e e' rest => exact .swap e'.1 e.1 (rest.map Prod.fst)
  | trans _ _ ih ih' => exact ih.trans ih'

theorem wellNamed (h : Reordered tree tree') (htree : WellNamed tree) : WellNamed tree' := by
  induction h with
  | file | empty => exact htree
  | cons name _ hrest ih ihrest =>
    obtain ⟨hname, hfresh, hfirst, hwell⟩ := wellNamed_cons_iff.1 htree
    exact .cons hname (fun hmem => hfresh (hrest.perm_names.mem_iff.2 hmem)) (ih hfirst)
      (ihrest hwell)
  | swap e e' rest =>
    obtain ⟨hname, hfresh, hfirst, hwell⟩ := wellNamed_cons_iff.1 htree
    obtain ⟨hname', hfresh', hsecond, hrest⟩ := wellNamed_cons_iff.1 hwell
    rw [List.map_cons, List.mem_cons, not_or] at hfresh
    refine .cons hname' ?_ hsecond (.cons hname hfresh.2 hfirst hrest)
    rw [List.map_cons, List.mem_cons, not_or]
    exact ⟨Ne.symm hfresh.1, hfresh'⟩
  | trans _ _ ih ih' => exact ih' (ih htree)

theorem exists_mem (h : Reordered tree tree') {name : Text} {child : FileTree}
    (hmem : (name, child) ∈ tree.entries) :
    ∃ child', (name, child') ∈ tree'.entries ∧ Reordered child child' := by
  induction h generalizing child with
  | file | empty => cases hmem
  | @cons _ first first' rest rest' hfirst hrest _ ih =>
    rcases List.mem_cons.1 hmem with heq | hmem
    · cases heq
      exact ⟨first', List.mem_cons_self, hfirst⟩
    · obtain ⟨child', hmem', hchild⟩ := ih hmem
      exact ⟨child', List.mem_cons_of_mem _ hmem', hchild⟩
  | swap e e' rest => exact ⟨child, (List.Perm.swap e' e rest).mem_iff.1 hmem, refl child⟩
  | trans _ _ ih ih' =>
    obtain ⟨middle, hmiddle, hfirst⟩ := ih hmem
    obtain ⟨child', hmem', hsecond⟩ := ih' hmiddle
    exact ⟨child', hmem', hfirst.trans hsecond⟩

theorem leads (h : Reordered tree tree') {names : List Text} (hleads : Leads tree.entries names) :
    Leads tree'.entries names := by
  generalize hentries : tree.entries = entries at hleads
  induction hleads generalizing tree tree' with
  | @file _ _ text? hmem =>
    obtain ⟨child, hmem', hchild⟩ := h.exists_mem (hentries ▸ hmem)
    rw [(hchild.eq_file_iff text?).1 rfl] at hmem'
    exact .file hmem'
  | folder hmem _ ih =>
    obtain ⟨child, hmem', hchild⟩ := h.exists_mem (hentries ▸ hmem)
    rw [hchild.eq_folder] at hmem'
    exact .folder hmem' (ih hchild rfl)

/-- A path leads to the same tree, in another order. -/
theorem exists_follow_eq_ok {pieces : List Text} {above above' : List FileTree} {found : FileTree}
    (h : Reordered tree tree') (habove : List.Forall₂ Reordered above above')
    (htree' : WellNamed tree') (habove' : ∀ a ∈ above', WellNamed a)
    (hfound : follow above tree pieces = .ok found) :
    ∃ found', follow above' tree' pieces = .ok found' ∧ Reordered found found' := by
  induction pieces generalizing above above' tree tree' with
  | nil =>
    cases hfound
    exact ⟨tree', rfl, h⟩
  | cons piece rest ih =>
    cases tree with
    | file => cases hfound
    | folder entries =>
      obtain ⟨entries', rfl⟩ : ∃ entries', tree' = .folder entries' := ⟨_, h.eq_folder⟩
      simp only [follow] at hfound ⊢
      split at hfound
      · next hhere =>
        rw [if_pos hhere]
        exact ih h habove htree' habove' hfound
      next hhere =>
      rw [if_neg hhere]
      split at hfound
      · next hup =>
        rw [if_pos hup]
        cases habove with
        | nil => exact ih h .nil htree' habove' hfound
        | cons hparent habove =>
          obtain ⟨hparent', habove'⟩ := List.forall_mem_cons.1 habove'
          exact ih hparent habove hparent' habove' hfound
      next hup =>
      rw [if_neg hup]
      split at hfound
      · cases hfound
      · next child hchild =>
        obtain ⟨child', hmem, hreordered⟩ := h.exists_mem (mem_of_child? hchild)
        have hchild' := htree'.child?_eq_some hmem
        rw [FileTree.entries] at hchild'
        simp only [hchild']
        exact ih hreordered (.cons h habove) (htree'.of_mem hmem).2
          (List.forall_mem_cons.2 ⟨htree', habove'⟩) hfound

end Reordered

end FileTree

open FileTree (WellNamed Reordered)

theorem FileSystem.LeadsFrom.reordered {files : FileSystem} {top : FileTree}
    (htop : Reordered files.top top) (hwell : WellNamed top) {folder : Text} {names : List Text}
    (h : files.LeadsFrom folder names) :
    FileSystem.LeadsFrom { files with top } folder names := by
  obtain ⟨entries, hnode, hleads⟩ := h
  unfold LeadsFrom node? at *
  split at hnode
  · cases hnode
  · next hfolder =>
    obtain ⟨found, hfound, hreordered⟩ :=
      htop.exists_follow_eq_ok .nil hwell (by simp) hnode
    rw [hreordered.eq_folder] at hfound
    exact ⟨found.entries, by rw [if_neg hfolder]; exact hfound, hreordered.leads hleads⟩

namespace Path

theorem join_ne_nil {base path : Text} (h : path ≠ []) : join base path ≠ [] := by
  unfold join
  split
  · exact h
  · split <;> simp [h]

/-- The path of what the names lead to has the components of the folder and then the names. -/
theorem components_below {folder : Text} (hfolder : folder ≠ []) {names : List Text}
    (hnames : ∀ name ∈ names, (name ≠ [] ∧ '/' ∉ name) ∧ name.head? ≠ some '.') :
    components (below folder names) = components folder ++ names := by
  induction names generalizing folder with
  | nil => rw [List.append_nil]; rfl
  | cons name names ih =>
    obtain ⟨⟨⟨hne, hslash⟩, hdot⟩, hnames⟩ := List.forall_mem_cons.1 hnames
    have hhead : name.head? ≠ some '/' := fun h => hslash (List.mem_of_mem_head? h)
    have hnamed : isNamed name := by
      have : name ≠ ['.'] := by rintro rfl; exact hdot rfl
      simp [isNamed, hne, this]
    have hbelow : below folder (name :: names) = below (join folder name) names := rfl
    rw [hbelow, ih (join_ne_nil hne) hnames, components_join hfolder hhead,
      Text.split_of_notMem hslash, List.filter_singleton, hnamed, List.append_assoc]
    rfl

end Path

namespace Site

variable {site : Site} {recursive : Bool} {folder : Text}

/-! ## Which files a walk finds -/

/-- The names lead from a folder to a file whose name ends with the extension, in the folder itself
unless the walk is recursive. Neither the file nor a folder on the way has a name that starts with a
dot or is excluded by its path from the root. -/
structure LeadsToTemplate (site : Site) (folder : Text) (recursive : Bool) (names : List Text) :
    Prop where
  leads : site.files.LeadsFrom folder names
  depth : recursive ∨ names.length = 1
  extension : ∀ name ∈ names.getLast?, site.options.extension <:+ name
  shown : ∀ above name, above ++ [name] <+: names → name.head? ≠ some '.' ∧
    ∃ relative, Path.relativeTo? site.root (Path.below folder (above ++ [name])) = some relative ∧
      ¬site.options.isExcluded relative

theorem not_isHidden_iff {name : Text} : ¬isHidden name ↔ name.head? ≠ some '.' := by
  simp [isHidden]

theorem prunes_iff {names : List Text} :
    site.Prunes folder names ↔ ∃ above name, above ++ [name] <+: names ∧
      site.excludes (Path.below folder (above ++ [name])) := by
  induction names generalizing folder with
  | nil => simp [Prunes]
  | cons name names ih =>
    rw [Prunes, ih]
    constructor
    · rintro (h | ⟨above, last, hstart, h⟩)
      · exact ⟨[], name, List.prefix_append [name] names, h⟩
      · exact ⟨name :: above, last, List.cons_prefix_cons.2 ⟨rfl, hstart⟩, h⟩
    · rintro ⟨above, last, hstart, h⟩
      cases above with
      | nil =>
        obtain rfl : last = name := (List.cons_prefix_cons.1 hstart).1
        exact .inl h
      | cons first above =>
        obtain ⟨rfl, hafter⟩ := List.cons_prefix_cons.1 hstart
        exact .inr ⟨above, last, hafter, h⟩

theorem not_excludes_iff {path : Text}
    (h : Path.components site.root <+: Path.components path) :
    ¬site.excludes path ↔ ∃ relative, Path.relativeTo? site.root path = some relative ∧
      ¬site.options.isExcluded relative := by
  obtain ⟨relative, hrelative⟩ := Option.isSome_iff_exists.1 (Path.isSome_relativeTo? h)
  simp [excludes, hrelative]

theorem ne_nil_of_leadsFrom {names : List Text} (h : site.files.LeadsFrom folder names) :
    folder ≠ [] := by
  obtain ⟨entries, hnode, -⟩ := h
  rintro rfl
  cases hnode

theorem names_of_leadsFrom (hfiles : WellNamed site.files.top) {names : List Text}
    (h : site.files.LeadsFrom folder names) : ∀ name ∈ names, name ≠ [] ∧ '/' ∉ name := by
  obtain ⟨entries, hnode, hleads⟩ := h
  unfold FileSystem.node? at hnode
  split at hnode
  · cases hnode
  · exact (hfiles.of_follow hnode).of_leads hleads

theorem mem_templateFiles_iff_leadsToTemplate (hfiles : WellNamed site.files.top)
    (hfolder : Path.components site.root <+: Path.components folder) {path : Text} :
    path ∈ site.templateFiles folder recursive ↔
      ∃ names, site.LeadsToTemplate folder recursive names ∧ path = Path.below folder names := by
  have hroot : ∀ {above names : List Text}, site.files.LeadsFrom folder names → above <+: names →
      (∀ name ∈ above, name.head? ≠ some '.') →
      Path.components site.root <+: Path.components (Path.below folder above) := by
    intro above names hleads hstart hdots
    have hnames := names_of_leadsFrom hfiles hleads
    rw [Path.components_below (ne_nil_of_leadsFrom hleads)
      fun name hmem => ⟨hnames name (hstart.subset hmem), hdots name hmem⟩]
    exact hfolder.trans (List.prefix_append ..)
  simp only [mem_templateFiles_iff_leads, not_isHidden_iff, prunes_iff, not_exists, not_and]
  constructor
  · rintro ⟨names, hleads, rfl, hdepth, hdots, hextension, hexcludes⟩
    refine ⟨names, ⟨hleads, hdepth, hextension, fun above name hstart => ?_⟩, rfl⟩
    refine ⟨hdots name (hstart.subset (by simp)), ?_⟩
    exact (not_excludes_iff (hroot hleads hstart fun n hn => hdots n (hstart.subset hn))).1
      (hexcludes above name hstart)
  · rintro ⟨names, ⟨hleads, hdepth, hextension, hshown⟩, rfl⟩
    have hdots : ∀ name ∈ names, name.head? ≠ some '.' := by
      intro name hmem
      obtain ⟨above, after, rfl⟩ := List.append_of_mem hmem
      exact (hshown above name ⟨after, by simp⟩).1
    refine ⟨names, hleads, rfl, hdepth, hdots, hextension, fun above name hstart => ?_⟩
    exact (not_excludes_iff (hroot hleads hstart fun n hn => hdots n (hstart.subset hn))).2
      (hshown above name hstart).2

/-! ## The order of their paths -/

theorem exists_of_mem_filesIn {path : Text} {tree : FileTree} (hfolder : folder ≠ [])
    (h : WellNamed tree) (hmem : path ∈ filesIn site recursive folder tree.entries) :
    ∃ name names, name ∈ tree.entries.map Prod.fst ∧
      Path.components path = Path.components folder ++ name :: names := by
  obtain ⟨names, hleads, rfl, -, hhidden, -, -⟩ := holds_iff.1 (mem_filesIn_iff.1 hmem)
  rw [Path.components_below hfolder
    fun name hname => ⟨h.of_leads hleads name hname, not_isHidden_iff.1 (hhidden name hname)⟩]
  cases hleads with
  | file hentry => exact ⟨_, _, List.mem_map_of_mem hentry, rfl⟩
  | folder hentry _ => exact ⟨_, _, List.mem_map_of_mem hentry, rfl⟩

/-- The paths of two files first differ where their names in one folder do. -/
theorem pairwise_filesIn {tree : FileTree} (hfolder : folder ≠ []) (h : WellNamed tree) :
    (filesIn site recursive folder tree.entries).Pairwise
      fun a b => Path.components a ≠ Path.components b := by
  induction h generalizing folder with
  | file | empty => exact .nil
  | @cons name tree rest hname hfresh htree hrest ih ihrest =>
    rw [FileTree.entries, filesIn, List.pairwise_append]
    refine ⟨?_, ihrest hfolder, fun a ha b hb => ?_⟩
    · split
      · exact .nil
      cases tree with
      | file text? =>
        rw [filesOf]
        split
        · exact List.pairwise_singleton ..
        · exact .nil
      | folder inner =>
        rw [filesOf]
        split
        · exact ih (Path.join_ne_nil hname.1)
        · exact .nil
    · have hfirst : a ∈ filesIn site recursive folder [(name, tree)] := by
        rw [filesIn, filesIn, List.append_nil]
        exact ha
      have hsingle : WellNamed (.folder [(name, tree)]) := .cons hname (by simp) htree .empty
      obtain ⟨m, names, hm, hcomponents⟩ := exists_of_mem_filesIn hfolder hsingle hfirst
      obtain ⟨n, names', hn, hcomponents'⟩ := exists_of_mem_filesIn hfolder hrest hb
      obtain rfl : m = name := by simpa [FileTree.entries] using hm
      rw [hcomponents, hcomponents']
      intro heq
      exact hfresh ((List.cons.inj (List.append_cancel_left heq)).1 ▸ hn)

theorem pairwise_components_templateFiles (hfiles : WellNamed site.files.top) :
    (site.templateFiles folder recursive).Pairwise
      fun a b => Path.components a < Path.components b := by
  have hdistinct : (site.templateFiles folder recursive).Pairwise
      fun a b => Path.components a ≠ Path.components b := by
    unfold templateFiles FileSystem.node?
    split
    · next entries hnode =>
      split at hnode
      · cases hnode
      · next hfolder =>
        rw [(List.mergeSort_perm ..).pairwise_iff fun h => Ne.symm h]
        exact pairwise_filesIn (by simpa using hfolder) (hfiles.of_follow hnode)
    · exact .nil
  refine ((pairwise_templateFiles site folder recursive).and hdistinct).imp ?_
  rintro a b ⟨hle, hne⟩
  exact lt_of_le_of_ne (Path.le_iff.1 hle) hne

theorem LeadsToTemplate.reordered {names : List Text} {top : FileTree}
    (h : site.LeadsToTemplate folder recursive names) (htop : Reordered site.files.top top)
    (hwell : WellNamed top) :
    LeadsToTemplate { site with files := { site.files with top } } folder recursive names where
  leads := h.leads.reordered htop hwell
  depth := h.depth
  extension := h.extension
  shown := h.shown

/-- The template files of a folder are the files that are led to, each once, strictly in the order
of their components, and whatever the order is that folders list their entries in. -/
theorem templateFiles_exact (site : Site) (folder : Text) (recursive : Bool)
    (hfiles : WellNamed site.files.top)
    (hfolder : Path.components site.root <+: Path.components folder) :
    (∀ path, path ∈ site.templateFiles folder recursive ↔
      ∃ names, site.LeadsToTemplate folder recursive names ∧ path = Path.below folder names) ∧
    (site.templateFiles folder recursive).Nodup ∧
    (site.templateFiles folder recursive).Pairwise
      (fun a b => Path.components a < Path.components b) ∧
    ∀ top, Reordered site.files.top top →
      templateFiles { site with files := { site.files with top } } folder recursive =
        site.templateFiles folder recursive := by
  have hnodup {site' : Site} (hfiles' : WellNamed site'.files.top) :
      (site'.templateFiles folder recursive).Nodup :=
    (pairwise_components_templateFiles hfiles').imp fun hlt heq => absurd (heq ▸ hlt) (lt_irrefl _)
  refine ⟨fun path => mem_templateFiles_iff_leadsToTemplate hfiles hfolder, hnodup hfiles,
    pairwise_components_templateFiles hfiles, fun top htop => ?_⟩
  let site' : Site := { site with files := { site.files with top } }
  have hwell : WellNamed site'.files.top := htop.wellNamed hfiles
  have hmem : ∀ path,
      path ∈ site'.templateFiles folder recursive ↔ path ∈ site.templateFiles folder recursive := by
    intro path
    rw [mem_templateFiles_iff_leadsToTemplate hwell hfolder,
      mem_templateFiles_iff_leadsToTemplate hfiles hfolder]
    constructor
    · rintro ⟨names, hleads, rfl⟩
      exact ⟨names, hleads.reordered htop.symm hfiles, rfl⟩
    · rintro ⟨names, hleads, rfl⟩
      exact ⟨names, hleads.reordered htop hwell, rfl⟩
  refine List.Perm.eq_of_pairwise (fun a b _ _ hab hba => absurd hab (not_lt_of_gt hba))
    (pairwise_components_templateFiles hwell) (pairwise_components_templateFiles hfiles)
    ((List.perm_ext_iff_of_nodup (hnodup hwell) (hnodup hfiles)).2 hmem)

/-- A page next to a folder of its name, a hidden page and an excluded folder. -/
def mixedSite : Site where
  files := {
    top := .folder [
      ("a.tmpl".toList, .file (some [])),
      (".b.tmpl".toList, .file (some [])),
      ("drafts".toList, .folder [("c.tmpl".toList, .file (some []))]),
      ("a".toList, .folder [("d.tmpl".toList, .file (some [])), ("e.txt".toList, .file none)])] }
  root := ['/']
  options := draftSite.options

/-- The same files, with the excluded folder last. -/
def mixedTop : FileTree :=
  .folder [
    ("a.tmpl".toList, .file (some [])),
    (".b.tmpl".toList, .file (some [])),
    ("a".toList, .folder [("d.tmpl".toList, .file (some [])), ("e.txt".toList, .file none)]),
    ("drafts".toList, .folder [("c.tmpl".toList, .file (some []))])]

theorem wellNamed_mixedSite : WellNamed mixedSite.files.top :=
  .cons (by decide) (by decide) (.file _) <|
    .cons (by decide) (by decide) (.file _) <|
      .cons (by decide) (by decide) (.cons (by decide) (by decide) (.file _) .empty) <|
        .cons (by decide) (by decide)
          (.cons (by decide) (by decide) (.file _) (.cons (by decide) (by decide) (.file _) .empty))
          .empty

/-- The folder comes before the page of its name, though a dot comes before a slash. -/
theorem templateFiles_exact_mixedSite :
    WellNamed mixedSite.files.top ∧
      Path.components mixedSite.root <+: Path.components mixedSite.root ∧
      mixedSite.templateFiles mixedSite.root true = ["/a/d.tmpl".toList, "/a.tmpl".toList] ∧
      Reordered mixedSite.files.top mixedTop ∧
      templateFiles { mixedSite with files := { mixedSite.files with top := mixedTop } }
        mixedSite.root true = ["/a/d.tmpl".toList, "/a.tmpl".toList] := by
  have hfiles : mixedSite.templateFiles mixedSite.root true =
      ["/a/d.tmpl".toList, "/a.tmpl".toList] := by
    cbv
  have htop : Reordered mixedSite.files.top mixedTop :=
    .cons _ (.refl _) (.cons _ (.refl _) (.swap ..))
  obtain ⟨-, -, -, horder⟩ := templateFiles_exact mixedSite mixedSite.root true wellNamed_mixedSite
    (List.prefix_refl _)
  exact ⟨wellNamed_mixedSite, List.prefix_refl _, hfiles, htop, (horder mixedTop htop).trans hfiles⟩

end Site

end ComponentTags
