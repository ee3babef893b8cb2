import Mathlib
import ComponentTags.Proofs.Document.Relative
import ComponentTags.Proofs.Engine.Loading
import ComponentTags.Proofs.Text.Ends

/-!
# Names of files

A file that is asked for or referred to is read from the path of its name. A file that is found in a
folder gets its name from its path below the root, and the path of that name is the path of the file
as long as normalization has nothing to change but the extension. Either name leads to its file
again if it is what it is normalized to: normalization removes one slash, blank or extension in
front of another, and what it uncovers stays.
-/

namespace ComponentTags

namespace Text

theorem notMem_substitute {old new : Char} (h : new ≠ old) (s : Text) :
    old ∉ substitute old new s := by
  rw [substitute, List.mem_map]
  rintro ⟨c, -, hc⟩
  split at hc
  · exact h hc
  · next hne => exact hne hc

theorem substitute_of_notMem {old new : Char} (h : old ∉ s) : substitute old new s = s := by
  have hkept : ∀ c ∈ s, (if c = old then new else c) = c := by
    intro c hc
    refine if_neg ?_
    rintro rfl
    exact h hc
  rw [substitute, List.map_congr_left hkept, List.map_id']

end Text

/-- The extension in settings has no blanks at its ends. -/
theorem Options.trim_normalizeExtension (written : Text) :
    Text.trim (normalizeExtension written) = normalizeExtension written := by
  have htrim : Text.trim (Text.trim written) = Text.trim written := Text.stripWhile_stripWhile _ _
  unfold normalizeExtension
  split
  · rfl
  · next rest h => rwa [h] at htrim
  · next trimmed hne hdot =>
    obtain ⟨-, hlast⟩ := Text.stripWhile_eq_self_iff.1 htrim
    refine Text.stripWhile_eq_self_iff.2 ⟨by simp [Text.isBlank], ?_⟩
    rwa [List.getLast?_cons_of_ne_nil hne]

namespace TemplateName

/-- What a name is normalized to before the extension is removed. -/
def bare (name : Text) : Text :=
  Text.stripWhile Path.isSeparator (dropHere (Text.substitute '\\' '/' (Text.trim name)))

/-- There is nothing to normalize but slashes at the ends and the extension. -/
structure Plain (name : Text) : Prop where
  trim_eq : Text.trim name = name
  noBackslash : '\\' ∉ name
  noHere : ¬['.', '/'] <+: name

/-- There is nothing to normalize. -/
structure Normal (extension name : Text) : Prop extends Plain name where
  head?_ne : name.head? ≠ some '/'
  getLast?_ne : name.getLast? ≠ some '/'
  noExtension : extension = [] ∨ ¬extension <:+ name

theorem dropHere_sublist (name : Text) : (dropHere name).Sublist name := by
  fun_induction dropHere name with
  | case1 rest ih => exact (ih.cons _).cons _
  | case2 => exact List.Sublist.refl _

theorem dropHere_eq_self_iff {name : Text} : dropHere name = name ↔ ¬['.', '/'] <+: name := by
  constructor
  · rintro h ⟨rest, rfl⟩
    have hlength := (dropHere_sublist rest).length_le
    have hdrop : dropHere (['.', '/'] ++ rest) = dropHere rest := rfl
    rw [← hdrop, h] at hlength
    simp at hlength
  · intro h
    unfold dropHere
    split
    · exact absurd (List.prefix_append ['.', '/'] _) h
    · rfl

theorem bare_sublist (name : Text) :
    (bare name).Sublist (Text.substitute '\\' '/' (Text.trim name)) :=
  (Text.stripWhile_sublist _ _).trans (dropHere_sublist _)

theorem normalize_sublist (extension name : Text) :
    (normalize extension name).Sublist (bare name) := by
  change (if extension.isEmpty then bare name
    else (Text.beforeEnding? extension (bare name)).getD (bare name)).Sublist (bare name)
  split
  · exact List.Sublist.refl _
  · cases h : Text.beforeEnding? extension (bare name) with
    | none => exact List.Sublist.refl _
    | some rest => exact Text.sublist_of_beforeEnding? h

theorem notMem_normalize (extension name : Text) : '\\' ∉ normalize extension name := fun h =>
  Text.notMem_substitute (by decide) _
    ((bare_sublist name).subset ((normalize_sublist extension name).subset h))

theorem stripWhile_isSeparator_eq_self_iff {name : Text} :
    Text.stripWhile Path.isSeparator name = name ↔
      name.head? ≠ some '/' ∧ name.getLast? ≠ some '/' := by
  have hoption (o : Option Char) : (∀ c ∈ o, ¬Path.isSeparator c) ↔ o ≠ some '/' := by
    cases o <;> simp [Path.isSeparator]
  rw [Text.stripWhile_eq_self_iff, hoption, hoption]

theorem length_bare_le (name : Text) : (bare name).length ≤ name.length := by
  have htrim : (Text.trim name).length ≤ name.length := (Text.stripWhile_sublist _ _).length_le
  have hbare := (bare_sublist name).length_le
  rw [Text.substitute, List.length_map] at hbare
  exact hbare.trans htrim

theorem bare_eq_self_iff {name : Text} :
    bare name = name ↔ Plain name ∧ name.head? ≠ some '/' ∧ name.getLast? ≠ some '/' := by
  constructor
  · intro h
    have hstrip := Text.stripWhile_sublist Path.isSeparator
      (dropHere (Text.substitute '\\' '/' (Text.trim name)))
    have hdrop := dropHere_sublist (Text.substitute '\\' '/' (Text.trim name))
    have htrim : (Text.trim name).Sublist name := Text.stripWhile_sublist _ _
    -- no step makes the name longer, so none makes it shorter
    have hstripped := hstrip.length_le
    have hdropped := hdrop.length_le
    have hsubstituted : (Text.substitute '\\' '/' (Text.trim name)).length =
        (Text.trim name).length := List.length_map _
    have htrimmed := htrim.length_le
    have hlength := congrArg List.length h
    rw [bare] at hlength
    replace htrim := htrim.eq_of_length_le (by omega)
    replace hdrop := hdrop.eq_of_length_le (by omega)
    replace hstrip := hstrip.eq_of_length_le (by omega)
    rw [bare, hstrip, hdrop, htrim] at h
    rw [hdrop, htrim, h] at hstrip
    rw [htrim, h] at hdrop
    refine ⟨⟨htrim, ?_, dropHere_eq_self_iff.1 hdrop⟩,
      stripWhile_isSeparator_eq_self_iff.1 hstrip⟩
    rw [← h]
    exact Text.notMem_substitute (by decide) _
  · rintro ⟨⟨htrim, hslash, hhere⟩, hends⟩
    rw [bare, htrim, Text.substitute_of_notMem hslash, dropHere_eq_self_iff.2 hhere,
      stripWhile_isSeparator_eq_self_iff.2 hends]

/-- A name to which the extension is put back. -/
theorem normalize_append {extension name : Text} (h : extension <:+ bare name) :
    normalize extension name ++ extension = bare name := by
  change (if extension.isEmpty then bare name
    else (Text.beforeEnding? extension (bare name)).getD (bare name)) ++ extension = bare name
  split
  · next hempty => rw [List.isEmpty_iff.1 hempty, List.append_nil]
  · obtain ⟨rest, happend⟩ := h
    rw [Text.beforeEnding?_eq_some_iff.2 happend.symm, Option.getD_some, happend]

theorem normalize_eq_self_iff {extension name : Text} :
    normalize extension name = name ↔ Normal extension name := by
  have hnormalize : normalize extension name = if extension.isEmpty then bare name
    else (Text.beforeEnding? extension (bare name)).getD (bare name) := rfl
  constructor
  · intro h
    have hbare : bare name = name := by
      rw [← (normalize_sublist extension name).eq_of_length_le (h.symm ▸ length_bare_le name), h]
    obtain ⟨hplain, hhead, hlast⟩ := bare_eq_self_iff.1 hbare
    refine ⟨hplain, hhead, hlast, or_iff_not_imp_right.2 fun hsuffix => ?_⟩
    have happend := normalize_append (hbare.symm ▸ not_not.1 hsuffix)
    rw [h, hbare] at happend
    exact List.append_right_eq_self.1 happend
  · rintro ⟨hplain, hhead, hlast, hextension⟩
    rw [hnormalize, bare_eq_self_iff.2 ⟨hplain, hhead, hlast⟩]
    split
    · rfl
    · next hne =>
      have hnone : Text.beforeEnding? extension name = none := by
        refine if_neg fun hsuffix => ?_
        rcases hextension with rfl | hextension
        · exact hne rfl
        · exact hextension (List.isSuffixOf_iff_suffix.1 hsuffix)
      rw [hnone, Option.getD_none]

theorem suffix_dropHere {extension name : Text} (h : extension <:+ name)
    (hslash : '/' ∉ extension) : extension <:+ dropHere name := by
  fun_induction dropHere name with
  | case1 rest ih =>
    refine ih ?_
    rcases List.suffix_cons_iff.1 h with rfl | h
    · simp at hslash
    rcases List.suffix_cons_iff.1 h with rfl | h
    · simp at hslash
    · exact h
  | case2 => exact h

/-- An extension that has no blank at its ends stays at the end of a name. -/
theorem suffix_bare {extension name : Text} (h : extension <:+ name)
    (htrim : Text.trim extension = extension) (hslash : '/' ∉ extension)
    (hbackslash : '\\' ∉ name) : extension <:+ bare name := by
  have hkept : '\\' ∉ Text.trim name := fun hmem =>
    hbackslash ((Text.stripWhile_sublist _ _).subset hmem)
  rw [bare, Text.substitute_of_notMem hkept]
  refine Text.suffix_stripWhile (suffix_dropHere (Text.suffix_stripWhile h htrim) hslash) ?_
  rw [stripWhile_isSeparator_eq_self_iff]
  exact ⟨fun hmem => hslash (List.mem_of_mem_head? hmem),
    fun hmem => hslash (List.mem_of_mem_getLast? hmem)⟩

end TemplateName

namespace Site

variable {site : Site} {layout : Option Text} {target : Target} {d : Document}

/-! ## Names and paths of sources -/

/-- The name of a source tells its path, or the path tells the name. -/
structure NamedFor (site : Site) (target : Target) (s : Source) : Prop where
  own : s.kind ≠ .sibling → s.kind ≠ .shared →
    ∀ path, s.path = some path → path = site.pathOf s.name
  found : s.kind = .sibling → ∃ path ∈ site.folderFiles target, s.path = some path ∧
    TemplateName.ofPath? site.root site.options.extension path = some s.name

theorem namedFor_of_read {kind : Source.Kind} {name : Text} {s : Source} (hkind : kind ≠ .sibling)
    (h : site.read kind name (site.pathOf name) = .ok s) : site.NamedFor target s := by
  obtain ⟨hs, hname, hpath⟩ := fields_of_read h
  refine ⟨fun _ _ path hsome => ?_, fun hsibling => absurd (hs.symm.trans hsibling) hkind⟩
  rw [hpath] at hsome
  rw [← Option.some.inj hsome, hname]

theorem LayoutChain.namedFor {name : Option Text} {chain : List Source}
    (h : LayoutChain site name chain) : ∀ s ∈ chain, site.NamedFor target s := by
  induction h with
  | none => simp
  | some hread _ ih =>
    refine List.forall_mem_append.2 ⟨ih, List.forall_mem_singleton.2 ?_⟩
    exact namedFor_of_read (by decide) hread

theorem fields_withLayout (site : Site) (layout : Option Text) (entry : Source) :
    (site.withLayout layout entry).path = entry.path ∧
      (site.withLayout layout entry).text = entry.text := by
  unfold withLayout
  split <;> exact ⟨rfl, rfl⟩

theorem namedFor_of_primaryOf {entry : Source} {sources : List Source}
    (h : site.primaryOf target = .ok (entry, sources)) :
    ∀ s ∈ site.withLayout layout entry :: sources, site.NamedFor target s := by
  have hlayout := (fields_withLayout site layout entry).1
  have hentry (h : site.NamedFor target entry) :
      site.NamedFor target (site.withLayout layout entry) := by
    refine ⟨?_, ?_⟩
    · rw [Stages.kind_withLayout, Stages.name_withLayout, hlayout]
      exact h.own
    · rw [Stages.kind_withLayout, Stages.name_withLayout, hlayout]
      exact h.found
  cases target with
  | text source =>
    cases h
    refine List.forall_mem_singleton.2 (hentry ⟨?_, ?_⟩)
    · simp [Source.inline, Source.ofText]
    · simp [Source.inline, Source.ofText]
  | named request extras =>
    obtain ⟨name, hread, hfolder⟩ := exists_of_primary extras h
    refine List.forall_mem_cons.2 ⟨hentry (namedFor_of_read (by decide) hread), ?_⟩
    obtain ⟨-, rfl⟩ | ⟨folder, recursive, hfiles, hsiblings⟩ := hfolder
    · simp
    · intro s hs
      obtain ⟨⟨own, path⟩, hmem, hs'⟩ := exists_of_mem_right (forall₂_of_mapM hsiblings) s hs
      obtain ⟨hkind, hname, hpath⟩ := fields_of_read hs'
      obtain ⟨path', hpath', hnamed⟩ := List.mem_filterMap.1 hmem
      unfold siblings.named at hnamed
      obtain ⟨own', hown, hnamed⟩ := Option.bind_eq_some_iff.1 hnamed
      split at hnamed
      · cases hnamed
      · cases hnamed
        refine ⟨by simp [hkind], fun _ => ⟨path, hfiles ▸ hpath', hpath, ?_⟩⟩
        rw [hname]
        exact hown

theorem namedFor_of_extra {request : Text} {s : Source} (h : site.extra request = .ok s) :
    site.NamedFor target s := by
  unfold extra at h
  dsimp only at h
  split at h
  · exact namedFor_of_read (by decide) h
  · cases h

theorem Stages.namedFor (st : site.Stages layout target d) :
    ∀ s ∈ d.sources, site.NamedFor target s := by
  have hbase : ∀ s ∈ st.base, site.NamedFor target s := by
    obtain ⟨added, hcollect, hsublist, -⟩ := Source.exists_collect_eq []
      (st.layouts ++ site.withLayout layout st.entry :: st.siblings ++ st.extras)
    intro s hs
    rw [st.base_eq_collect, hcollect, List.nil_append] at hs
    rcases List.mem_append.1 (hsublist.subset hs) with hs | hs
    · rcases List.mem_append.1 hs with hs | hs
      · exact (layoutChain_of_layouts st.layouts_eq).namedFor s hs
      · exact namedFor_of_primaryOf st.primary_eq s hs
    · obtain ⟨request, -, hextra⟩ := exists_of_mem_right (forall₂_of_mapM st.extras_eq) s hs
      exact namedFor_of_extra hextra
  obtain ⟨referenced, shared, later, hadded⟩ := st.exists_added
  have hreferenced : ∀ s ∈ d.sources, s.kind = .referenced → site.NamedFor target s := by
    intro s hs hkind
    obtain ⟨hpath, -⟩ := st.exists_path_of_referenced hs hkind
    refine ⟨fun _ _ path hsome => ?_, by simp [hkind]⟩
    rw [hpath] at hsome
    exact (Option.some.inj hsome).symm
  intro s hs
  have hs' := hs
  rw [hadded.sources_eq] at hs'
  rcases List.mem_append.1 hs' with hs' | hs'
  · rcases List.mem_append.1 hs' with hs' | hs'
    · rcases List.mem_append.1 hs' with hs' | hs'
      · exact hbase s hs'
      · exact hreferenced s hs (hadded.referenced_kind s hs')
    · have hkind := hadded.shared_kind s hs'
      exact ⟨by simp [hkind], by simp [hkind]⟩
  · exact hreferenced s hs (hadded.later_kind s hs')

/-- The text of a source is what is read from its path. -/
theorem Stages.read_path (st : site.Stages layout target d) :
    ∀ s ∈ d.sources, ∀ path, s.path = some path → site.files.read path = .ok s.text := by
  have hread : ∀ kind name path s, site.read kind name path = .ok s →
      ∀ path, s.path = some path → site.files.read path = .ok s.text := by
    intro kind name path s h path' hpath
    obtain ⟨-, -, hsome⟩ := fields_of_read h
    obtain rfl : path = path' := Option.some.inj (hsome.symm.trans hpath)
    unfold read at h
    split at h
    · cases h
    · next htext =>
      cases h
      exact htext
  refine st.forall_sources hread ?_
  obtain ⟨hpath, htext⟩ := fields_withLayout site layout st.entry
  rw [hpath, htext]
  have hprimary := st.primary_eq
  cases target with
  | text source =>
    rw [← (Prod.mk.inj (Except.ok.inj hprimary)).1]
    exact nofun
  | named request extras =>
    obtain ⟨name, hentry, -⟩ := exists_of_primary extras hprimary
    exact hread _ _ _ _ hentry

/-! ## Files of a folder -/

theorem exists_folder_of_mem_folderFiles {path : Text} (h : path ∈ site.folderFiles target) :
    ∃ folder recursive, folder.head? ≠ some '/' ∧
      path ∈ site.templateFiles (Path.join site.root folder) recursive := by
  cases target with
  | text source => cases h
  | named request extras =>
    have hhead {folder : Text} (hfolder : folder <+: site.normalize request) :
        folder.head? ≠ some '/' := TemplateName.head?_ne_of_prefix_normalize hfolder
    simp only [folderFiles] at h
    split at h
    · split at h
      · cases h
      · next folder hfolder => exact ⟨folder, _, hhead (prefix_of_folderOf? hfolder), h⟩
    · exact ⟨_, _, hhead (List.prefix_refl _), h⟩

/-- The relative path of a file in a folder ends in a name that has the extension. -/
theorem exists_isRelative (hfiles : FileTree.WellNamed site.files.top) {path relative : Text}
    (h : path ∈ site.folderFiles target)
    (hrelative : Path.relativeTo? site.root path = some relative) :
    ∃ name, (Path.isNamed name ∧ '/' ∉ name) ∧ site.options.extension <:+ name ∧
      Path.EndsIn path name ∧ Path.IsRelative site.root path relative name := by
  obtain ⟨folder, recursive, hhead, hmem⟩ := exists_folder_of_mem_folderFiles h
  obtain ⟨names, hleads, rfl, -, hhidden, hextension, -⟩ := mem_templateFiles_iff_leads.1 hmem
  have hfolder := ne_nil_of_leadsFrom hleads
  have hnames : ∀ name ∈ names, (name ≠ [] ∧ '/' ∉ name) ∧ name.head? ≠ some '.' :=
    fun name hname =>
      ⟨names_of_leadsFrom hfiles hleads name hname, not_isHidden_iff.1 (hhidden name hname)⟩
  have hcomponents := Path.components_below hfolder hnames
  obtain ⟨above, habove⟩ := Path.components_prefix_join site.root hhead
  obtain ⟨_, _, hleads⟩ := hleads
  obtain ⟨init, name, rfl⟩ := (List.eq_nil_or_concat' names).resolve_left hleads.ne_nil
  obtain ⟨⟨hne, hslash⟩, hdot⟩ := hnames name (by simp)
  have hnamed : Path.isNamed name := by
    have hhere : name ≠ ['.'] := by
      rintro rfl
      exact hdot rfl
    simp [Path.isNamed, hne, hhere]
  have hend := Path.endsIn_below hslash (Path.join site.root folder) init
  refine ⟨name, ⟨hnamed, hslash⟩, hextension name (by simp), hend,
    Path.isRelative_of_relativeTo? (?_ : _ = _ ++ (above ++ init ++ [name])) hnamed hend ?_
      hrelative⟩
  · rw [hcomponents, ← habove, List.append_assoc, List.append_assoc]
  · intro hroot
    rw [hroot, Path.join_nil_left] at hcomponents hfolder ⊢
    rw [Ne, ← Path.head?_components, hcomponents,
      List.head?_append_of_ne_nil _ (Path.components_ne_nil hfolder), Path.head?_components]
    exact hhead

/-- A name that comes from a plain relative path tells the path it comes from. -/
theorem pathOf_of_plain {path relative name : Text} (hname : Path.isNamed name ∧ '/' ∉ name)
    (hextension : site.options.extension <:+ name)
    (hrelative : Path.IsRelative site.root path relative name)
    (hplain : TemplateName.Plain relative) :
    site.pathOf (site.normalize (Text.substitute '\\' '/' relative)) =
      Path.join site.root relative := by
  have hlast : relative.getLast? ≠ some '/' := by
    obtain ⟨before, rfl⟩ := hrelative.endsIn.suffix
    have hne : name ≠ [] := by
      rintro rfl
      exact absurd hname.1 (by decide)
    rw [List.getLast?_append_of_ne_nil _ hne]
    exact fun hlast => hname.2 (List.mem_of_mem_getLast? hlast)
  have hbare : TemplateName.bare relative = relative :=
    TemplateName.bare_eq_self_iff.2 ⟨hplain, hrelative.head?_ne, hlast⟩
  have hsuffix : site.options.extension <:+ TemplateName.bare relative := by
    rw [hbare]
    exact hextension.trans hrelative.endsIn.suffix
  rw [Text.substitute_of_notMem hplain.noBackslash, pathOf, normalize,
    TemplateName.normalize_append hsuffix, hbare]

/-- The root has a path, and the extension is as settings have it, without a backslash. -/
structure Regular (site : Site) : Prop where
  root_ne : site.root ≠ []
  extension_eq : ∃ written, site.options.extension = Options.normalizeExtension written
  noBackslash : '\\' ∉ site.options.extension

/-- A name that tells the path it comes from has kept, with the extension, every character of that
path but slashes and dots. -/
theorem countP_normalize_append (hroot : site.root ≠ []) {path relative name : Text}
    (hslash : '/' ∉ site.options.extension)
    (hrelative : Path.IsRelative site.root path relative name)
    (h : Path.components (site.pathOf (site.normalize (Text.substitute '\\' '/' relative))) =
      Path.components path) {q : Char → Bool} (hq : ¬q '/') (hq' : ¬q '.') :
    (site.normalize (Text.substitute '\\' '/' relative) ++ site.options.extension).countP q =
      relative.countP q := by
  have hhead : (site.normalize (Text.substitute '\\' '/' relative) ++
      site.options.extension).head? ≠ some '/' := by
    rw [List.head?_append]
    cases hnormal : (site.normalize (Text.substitute '\\' '/' relative)).head? with
    | none => exact fun hmem => hslash (List.mem_of_mem_head? hmem)
    | some c =>
      rw [Option.some_or, ← hnormal]
      exact TemplateName.head?_ne_of_prefix_normalize (List.prefix_refl _)
  rw [← hrelative.components_join, pathOf, Path.components_join hroot hhead,
    Path.components_join hroot hrelative.head?_ne] at h
  rw [← Path.countP_flatten_named hq hq', ← Path.countP_flatten_named hq hq' relative,
    Path.named, Path.named, List.append_cancel_left h]

/-- Normalization takes backslashes and blanks away from the pieces of a path, so a name that tells
the path it comes from comes from one that has none. -/
theorem plain_of_components_eq (hsite : site.Regular) {path relative name : Text}
    (hname : Path.isNamed name ∧ '/' ∉ name) (hextension : site.options.extension <:+ name)
    (hrelative : Path.IsRelative site.root path relative name)
    (h : Path.components (site.pathOf (site.normalize (Text.substitute '\\' '/' relative))) =
      Path.components path) : TemplateName.Plain relative := by
  have hslash : '/' ∉ site.options.extension := fun hmem => hname.2 (hextension.subset hmem)
  have hsuffix := hextension.trans hrelative.endsIn.suffix
  have htrim : Text.trim site.options.extension = site.options.extension := by
    obtain ⟨written, hwritten⟩ := hsite.extension_eq
    rw [hwritten, Options.trim_normalizeExtension]
  have hbackslash : '\\' ∉ relative := by
    intro hmem
    have hpos : 0 < relative.countP (· == '\\') := List.countP_pos_iff.2 ⟨_, hmem, rfl⟩
    rw [← countP_normalize_append hsite.root_ne hslash hrelative h (by decide) (by decide),
      List.countP_append, Nat.add_pos_iff_pos_or_pos, List.countP_pos_iff, List.countP_pos_iff]
      at hpos
    rcases hpos with ⟨c, hc, heq⟩ | ⟨c, hc, heq⟩
    · exact TemplateName.notMem_normalize _ _ (eq_of_beq heq ▸ hc)
    · exact hsite.noBackslash (eq_of_beq heq ▸ hc)
  refine ⟨Text.trim_eq_self_of_countP ?_, hbackslash, hrelative.noHere hsite.root_ne⟩
  have hkept : '\\' ∉ Text.trim relative := fun hmem =>
    hbackslash ((Text.stripWhile_sublist _ _).subset hmem)
  have hsub := TemplateName.bare_sublist relative
  rw [Text.substitute_of_notMem hkept] at hsub
  rw [← countP_normalize_append hsite.root_ne hslash hrelative h (by decide) (by decide),
    Text.substitute_of_notMem hbackslash, normalize,
    TemplateName.normalize_append
      (TemplateName.suffix_bare hsuffix htrim hslash hbackslash)]
  exact hsub.countP_le

/-! ## Names that lead back -/

/-- The name of a source is normalized, and the path that it tells is that of the source. -/
structure GoesBy (site : Site) (s : Source) (path : Text) : Prop where
  normalize_eq : site.normalize s.name = s.name
  components_eq : Path.components (site.pathOf s.name) = Path.components path

/-- There is nothing to normalize in the name of a source, and if it was found in a folder, nothing
but the extension in the path that its name comes from. -/
structure IsClear (site : Site) (s : Source) (path : Text) : Prop where
  normal : TemplateName.Normal site.options.extension s.name
  plain : s.kind = .sibling → ∀ relative, Path.relativeTo? site.root path = some relative →
    TemplateName.Plain relative

/-- A source that is asked for or referred to is at the path of its name, and the name of one that
is found in a folder comes from its path. A source goes by its name, so that the name leads to the
same text again, if there is nothing to normalize in the name nor, for one that is found, in its
path; and otherwise it does not. -/
theorem goesBy_of_clear (hfiles : FileTree.WellNamed site.files.top)
    (h : site.assembleFor layout target = .ok d) :
    ∀ s ∈ d.sources, s.kind ≠ .shared → ∀ path, s.path = some path →
      (s.kind ≠ .sibling → path = site.pathOf s.name) ∧
      (s.kind = .sibling →
        TemplateName.ofPath? site.root site.options.extension path = some s.name) ∧
      (site.IsClear s path → site.GoesBy s path ∧
        site.files.read (site.pathOf (site.normalize s.name)) = .ok s.text) ∧
      (site.Regular → site.GoesBy s path → site.IsClear s path) := by
  obtain ⟨st⟩ := nonempty_stages h
  intro s hs hkind path hpath
  obtain ⟨hown, hfound⟩ := st.namedFor s hs
  have hread := st.read_path s hs path hpath
  by_cases hsibling : s.kind = .sibling
  · obtain ⟨_, hmem, hsome, hname⟩ := hfound hsibling
    obtain rfl := Option.some.inj (hpath.symm.trans hsome)
    obtain ⟨relative, hrelative, hname'⟩ := Option.map_eq_some_iff.1 hname
    obtain ⟨last, hlast, hextension, hend, hfits⟩ := exists_isRelative hfiles hmem hrelative
    refine ⟨fun hne => absurd hsibling hne, fun _ => hname, fun hclear => ?_, fun hsite hgoes => ?_⟩
    · have hpathOf : site.pathOf s.name = Path.join site.root relative := by
        rw [← hname']
        exact pathOf_of_plain hlast hextension hfits (hclear.plain hsibling relative hrelative)
      have hnormal := TemplateName.normalize_eq_self_iff.2 hclear.normal
      have hcomponents : Path.components (site.pathOf s.name) = Path.components path := by
        rw [hpathOf, hfits.components_join]
      refine ⟨⟨hnormal, hcomponents⟩, ?_⟩
      have hend' : Path.EndsIn (site.pathOf s.name) last := hpathOf ▸ hfits.endsIn.join _
      rw [normalize, hnormal, FileSystem.read,
        FileSystem.node?_congr hcomponents hend' hlast.1 hend hlast.1]
      exact hread
    · refine ⟨TemplateName.normalize_eq_self_iff.1 hgoes.normalize_eq, ?_⟩
      intro _ relative' hrelative'
      obtain rfl := Option.some.inj (hrelative.symm.trans hrelative')
      have hcomponents := hgoes.components_eq
      rw [← hname'] at hcomponents
      exact plain_of_components_eq hsite hlast hextension hfits hcomponents
  · obtain rfl := hown hsibling hkind path hpath
    refine ⟨fun _ => rfl, fun hs => absurd hs hsibling, fun hclear => ?_, fun _ hgoes => ?_⟩
    · have hnormal := TemplateName.normalize_eq_self_iff.2 hclear.normal
      refine ⟨⟨hnormal, rfl⟩, ?_⟩
      rw [normalize, hnormal]
      exact hread
    · exact ⟨TemplateName.normalize_eq_self_iff.1 hgoes.normalize_eq, fun hs => absurd hs hsibling⟩

/-- A site with a file that has only an extension, one that has two, and a file with a backslash in
a folder with a file of its name. -/
def oddSite : Site where
  files := {
    top := .folder [
      ("a".toList, .folder [(".tmpl".toList, .file (some "A".toList))]),
      ("x.tmpl.tmpl".toList, .file (some "X".toList)),
      ("p".toList, .folder [
        ("b\\c.tmpl".toList, .file (some "B".toList)),
        ("p.tmpl".toList, .file (some "P".toList))])] }
  root := ['/']
  options := (ofFiles []).options

def oddEntry : Source :=
  .ofText "p/p".toList (some "/p/p.tmpl".toList) .entry "P".toList

def oddSibling : Source :=
  .ofText "p/b/c".toList (some "/p/b\\c.tmpl".toList) .sibling "B".toList

def oddFolder : Document where
  entry := "p/p".toList
  sources := [oddEntry, oddSibling]

theorem primary_oddFolder :
    oddSite.primary "p".toList = .ok (oddEntry, [oddSibling]) := by
  have hname : oddSite.normalize "p".toList = "p".toList := by decide
  have hfile : oddSite.files.isFile (oddSite.pathOf "p".toList) = false := by decide
  have hfolder : oddSite.files.isFolder (Path.join oddSite.root "p".toList) = true := by decide
  have hindex : oddSite.files.isFile (oddSite.pathOf "p/p".toList) = true := by decide
  have hentry : oddSite.read .entry "p/p".toList (oddSite.pathOf "p/p".toList) =
      .ok oddEntry := rfl
  have hfiles : oddSite.templateFiles (Path.join oddSite.root "p".toList) true =
      ["/p/b\\c.tmpl".toList, "/p/p.tmpl".toList] :=
    List.mergeSort_of_pairwise (by decide)
  have hnamed : ["/p/b\\c.tmpl".toList, "/p/p.tmpl".toList].filterMap
      (siblings.named oddSite "p/p".toList) = [("p/b/c".toList, "/p/b\\c.tmpl".toList)] := by
    decide
  have hsibling : oddSite.read .sibling "p/b/c".toList "/p/b\\c.tmpl".toList =
      .ok oddSibling := rfl
  have hsiblings : oddSite.siblings "p/p".toList (Path.join oddSite.root "p".toList) true =
      .ok [oddSibling] := by
    rw [siblings, hfiles, hnamed]
    simp only [List.mapM_cons, List.mapM_nil, hsibling]
    rfl
  have hbase : "p".toList ++ '/' :: baseOf "p".toList = "p/p".toList := rfl
  simp only [primary, hname, hfile, hfolder, hbase, hindex, hentry, hsiblings]
  rfl

theorem assembleFor_oddFolder :
    oddSite.assembleFor none (.named "p".toList []) = .ok oddFolder := by
  have hopen : ∀ s ∈ oddFolder.sources, ∀ queue, oddSite.SearchStep
      ⟨oddFolder.sources, [], s :: queue⟩ ⟨oddFolder.sources, [], queue⟩ := by
    intro s hs queue
    have hnone : oddSite.mentioned s = [] := by
      simp only [oddFolder, List.mem_cons, List.not_mem_nil, or_false] at hs
      rcases hs with rfl | rfl <;> cbv
    exact .of_mentioned hnone
  have hfound : oddSite.discover oddFolder.sources oddFolder.sources = .ok oddFolder.sources :=
    discover_eq_of_run (.head (hopen _ (.head _) _) (.single (hopen _ (.tail _ (.head _)) _))) .done
  have hshared : oddSite.addShared oddSite.sharedFolder oddFolder.sources
      (oddSite.templateFiles oddSite.sharedFolder true) = .ok oddFolder.sources := by
    cbv
  exact Stages.assembleFor_eq_ok {
    entry := oddEntry
    siblings := [oddSibling]
    layouts := []
    extras := []
    base := oddFolder.sources
    found := oddFolder.sources
    withShared := oddFolder.sources
    primary_eq := primary_oddFolder
    layouts_eq := by cbv
    extras_eq := rfl
    base_eq := by cbv
    found_eq := hfound
    withShared_eq := hshared
    sources_eq := by rw [List.drop_length]; exact discover_eq_of_run .refl .done
    name_eq := rfl }

theorem wellNamed_oddSite : FileTree.WellNamed oddSite.files.top := by
  refine .cons (by decide) (by decide) ?_ (.cons (by decide) (by decide) (.file _)
    (.cons (by decide) (by decide) ?_ .empty))
  · exact .cons (by decide) (by decide) (.file _) .empty
  · exact .cons (by decide) (by decide) (.file _) (.cons (by decide) (by decide) (.file _) .empty)

/-- The file of the folder's name is read again by its name, and the one with a backslash does not
go by the name that it has. -/
theorem goesBy_of_clear_oddSite :
    FileTree.WellNamed oddSite.files.top ∧
      oddSite.assembleFor none (.named "p".toList []) = .ok oddFolder ∧
      oddEntry.kind = .entry ∧
      oddSite.files.read (oddSite.pathOf (oddSite.normalize "p/p".toList)) = .ok "P".toList ∧
      oddSibling.kind = .sibling ∧
      ¬oddSite.GoesBy oddSibling "/p/b\\c.tmpl".toList := by
  have hall := goesBy_of_clear wellNamed_oddSite assembleFor_oddFolder
  obtain ⟨-, -, hclear, -⟩ := hall oddEntry (.head _) (by decide) _ rfl
  obtain ⟨-, -, -, hgoes⟩ := hall oddSibling (.tail _ (.head _)) (by decide) _ rfl
  refine ⟨wellNamed_oddSite, assembleFor_oddFolder, rfl, ?_, rfl, fun hback => ?_⟩
  · refine (hclear ⟨?_, nofun⟩).2
    exact TemplateName.normalize_eq_self_iff.1 (by decide)
  · have hregular : oddSite.Regular := ⟨by decide, ⟨"tmpl".toList, by decide⟩, by decide⟩
    have hrelative : Path.relativeTo? oddSite.root "/p/b\\c.tmpl".toList =
        some "p/b\\c.tmpl".toList := by
      decide
    exact ((hgoes hregular hback).plain rfl _ hrelative).noBackslash (by decide)

/-- The first two files have names that are normalized to others, and the third has the name of
another path. -/
theorem not_goesBy_oddSite :
    (∃ d, oddSite.assembleFor none (.named "a/.tmpl".toList []) = .ok d ∧
      ∃ s ∈ d.sources, s.kind = .entry ∧ s.path = some "/a/.tmpl".toList ∧
        oddSite.normalize s.name ≠ s.name) ∧
    (∃ d, oddSite.assembleFor none (.named "x.tmpl.tmpl".toList []) = .ok d ∧
      ∃ s ∈ d.sources, s.kind = .entry ∧ s.path = some "/x.tmpl.tmpl".toList ∧
        oddSite.normalize s.name ≠ s.name) ∧
    ∃ d, oddSite.assembleFor none (.named "p".toList []) = .ok d ∧
      ∃ s ∈ d.sources, s.kind = .sibling ∧ s.path = some "/p/b\\c.tmpl".toList ∧
        Path.components (oddSite.pathOf s.name) ≠ Path.components "/p/b\\c.tmpl".toList := by
  refine ⟨⟨⟨"a/".toList, [.ofText "a/".toList (some "/a/.tmpl".toList) .entry "A".toList]⟩, by cbv,
      _, .head _, rfl, rfl, by decide⟩,
    ⟨⟨"x.tmpl".toList, [.ofText "x.tmpl".toList (some "/x.tmpl.tmpl".toList) .entry "X".toList]⟩,
      by cbv, _, .head _, rfl, rfl, by decide⟩,
    oddFolder, assembleFor_oddFolder, _, .tail _ (.head _), rfl, rfl, by decide⟩

end Site

end ComponentTags
