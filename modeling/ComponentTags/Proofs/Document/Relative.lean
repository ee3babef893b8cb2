import Mathlib
import ComponentTags.Proofs.Document.Enumeration
import ComponentTags.Proofs.Text.Ends

/-!
# Relative paths

The path of a file from a folder around it has the components that come after those of the folder,
and it begins and ends with one of them. So joined to the folder it is the path of the file again,
as far as components tell, and it ends like the name of the file. The file system reads the same
file from two paths that have the same components and end with one.
-/

namespace ComponentTags

namespace Text

theorem notMem_of_mem_split {separator : Char} {s : Text} :
    ∀ piece ∈ split separator s, separator ∉ piece := by
  induction s with
  | nil => simp [split]
  | cons c s ih =>
    obtain ⟨first, rest, h⟩ := List.exists_cons_of_ne_nil (split_ne_nil separator s)
    rw [h] at ih
    obtain ⟨hfirst, hrest⟩ := List.forall_mem_cons.1 ih
    rw [split_cons, h]
    split
    · exact List.forall_mem_cons.2 ⟨List.not_mem_nil, ih⟩
    · next hc =>
      refine List.forall_mem_cons.2 ⟨?_, hrest⟩
      rw [List.mem_cons, not_or]
      exact ⟨Ne.symm hc, hfirst⟩

theorem split_join_of_notMem {separator : Char} {pieces : List Text} (hne : pieces ≠ [])
    (h : ∀ piece ∈ pieces, separator ∉ piece) :
    split separator (join [separator] pieces) = pieces := by
  rw [split_join separator hne]
  conv_rhs => rw [← List.flatMap_singleton' pieces]
  exact List.flatMap_congr fun piece hpiece => split_of_notMem (h piece hpiece)

theorem suffix_join (separator : Text) (pieces : List Text) (last : Text) :
    last <:+ join separator (pieces ++ [last]) := by
  induction pieces with
  | nil => exact List.suffix_refl _
  | cons piece pieces ih =>
    rw [List.cons_append, join_cons _ _ (by simp)]
    exact ih.trans (List.suffix_append ..)

end Text

namespace Path

/-- The pieces of a path that name something. -/
def named (path : Text) : List Text :=
  (Text.split '/' path).filter isNamed

theorem named_join {pieces : List Text} (h : ∀ piece ∈ pieces, '/' ∉ piece) :
    named (Text.join ['/'] pieces) = pieces.filter isNamed := by
  by_cases hne : pieces = []
  · subst hne
    rfl
  · rw [named, Text.split_join_of_notMem hne h]

/-- Characters other than slashes and dots are all in pieces that name something. -/
theorem countP_flatten_named {q : Char → Bool} (hslash : ¬q '/') (hdot : ¬q '.') (path : Text) :
    (named path).flatten.countP q = path.countP q := by
  have hjoin (pieces : List Text) :
      (Text.join ['/'] pieces).countP q = (pieces.map (List.countP q)).sum := by
    induction pieces with
    | nil => rfl
    | cons piece rest ih =>
      cases rest with
      | nil => simp [Text.join]
      | cons next rest =>
        rw [Text.join_cons _ _ (by simp), List.countP_append, List.countP_append, ih]
        simp [hslash]
  have hfilter (pieces : List Text) :
      ((pieces.filter isNamed).map (List.countP q)).sum = (pieces.map (List.countP q)).sum := by
    induction pieces with
    | nil => rfl
    | cons piece rest ih =>
      by_cases hnamed : isNamed piece
      · rw [List.filter_cons_of_pos hnamed, List.map_cons, List.map_cons, List.sum_cons,
          List.sum_cons, ih]
      · have hnone : piece.countP q = 0 := by
          have : piece = [] ∨ piece = ['.'] := by simpa [isNamed, or_iff_not_imp_left] using hnamed
          rcases this with rfl | rfl <;> simp [hdot]
        rw [List.filter_cons_of_neg hnamed, List.map_cons, List.sum_cons, hnone, ih, Nat.zero_add]
  rw [named, List.countP_flatten, hfilter, ← hjoin, Text.join_split]

/-! ## Ends -/

/-- The last piece of a path. -/
def EndsIn (path piece : Text) : Prop :=
  ∃ init, Text.split '/' path = init ++ [piece]

/-- A path begins and ends with a piece that names something. -/
structure Trimmed (path : Text) : Prop where
  first : ∃ piece rest, Text.split '/' path = piece :: rest ∧ isNamed piece
  last : ∃ piece, EndsIn path piece ∧ isNamed piece

theorem EndsIn.suffix {path piece : Text} (h : EndsIn path piece) : piece <:+ path := by
  obtain ⟨init, hsplit⟩ := h
  rw [← Text.join_split '/' path, hsplit]
  exact Text.suffix_join _ _ _

theorem EndsIn.getLast?_named {path piece : Text} (h : EndsIn path piece) (hnamed : isNamed piece) :
    (named path).getLast? = some piece := by
  obtain ⟨init, hsplit⟩ := h
  rw [named, hsplit, List.filter_append, List.filter_singleton, hnamed]
  exact List.getLast?_concat

theorem Trimmed.head?_ne {path : Text} (h : Trimmed path) : path.head? ≠ some '/' := by
  obtain ⟨piece, rest, hsplit, hnamed⟩ := h.first
  intro hhead
  obtain ⟨path, rfl⟩ := List.head?_eq_some_iff.1 hhead
  rw [Text.split_cons, if_pos rfl] at hsplit
  obtain rfl : piece = [] := (List.cons.inj hsplit).1.symm
  exact absurd hnamed (by decide)

theorem Trimmed.noHere {path : Text} (h : Trimmed path) : ¬['.', '/'] <+: path := by
  obtain ⟨piece, rest, hsplit, hnamed⟩ := h.first
  rintro ⟨path, rfl⟩
  have hhere : Text.split '/' (['.', '/'] ++ path) = ['.'] :: Text.split '/' path :=
    Text.split_append_cons '/' ['.'] path
  rw [hhere] at hsplit
  obtain rfl : piece = ['.'] := (List.cons.inj hsplit).1.symm
  exact absurd hnamed (by decide)

theorem named_trimEnds (path : Text) : named (trimEnds path) = named path := by
  rw [trimEnds, named_join]
  · rw [List.filter_reverse, Text.filter_dropWhile_not, List.filter_reverse, List.reverse_reverse,
      Text.filter_dropWhile_not]
    rfl
  · intro piece hpiece
    have hmem := (List.dropWhile_sublist _).subset (List.mem_reverse.1 hpiece)
    exact Text.notMem_of_mem_split piece
      ((List.dropWhile_sublist _).subset (List.mem_reverse.1 hmem))

theorem trimmed_trimEnds {path : Text} (h : named path ≠ []) : Trimmed (trimEnds path) := by
  have hfront : ∀ {pieces : List Text}, pieces.filter isNamed ≠ [] →
      ∃ piece rest, pieces.dropWhile (!isNamed ·) = piece :: rest ∧ isNamed piece := by
    intro pieces hpieces
    have hne : pieces.dropWhile (!isNamed ·) ≠ [] := by
      intro hnil
      rw [← Text.filter_dropWhile_not, hnil] at hpieces
      exact hpieces rfl
    obtain ⟨piece, rest, heq⟩ := List.exists_cons_of_ne_nil hne
    refine ⟨piece, rest, heq, ?_⟩
    simpa [heq] using List.head?_dropWhile_not (!isNamed ·) pieces
  -- the pieces that stay once the front is cut off, and once the end is
  obtain ⟨first, after, hfirst, hnamed⟩ := hfront h
  have hafter : (first :: after).reverse.filter isNamed ≠ [] := by
    rw [List.filter_reverse, List.filter_cons_of_pos hnamed]
    simp
  obtain ⟨last, before, hlast, hnamed'⟩ := hfront hafter
  have htrim : trimEnds path = Text.join ['/'] (before.reverse ++ [last]) := by
    rw [trimEnds, hfirst, hlast, List.reverse_cons]
  have hkept : (before.reverse ++ [last]) <+: first :: after := by
    have hsuffix : last :: before <:+ (first :: after).reverse := by
      rw [← hlast]
      exact List.dropWhile_suffix _
    rw [← List.reverse_suffix, List.reverse_append, List.reverse_reverse]
    exact hsuffix
  have hsplit : Text.split '/' (trimEnds path) = before.reverse ++ [last] := by
    rw [htrim]
    refine Text.split_join_of_notMem (by simp) fun piece hpiece => ?_
    have hmem := hkept.subset hpiece
    rw [← hfirst] at hmem
    exact Text.notMem_of_mem_split piece ((List.dropWhile_sublist _).subset hmem)
  refine ⟨?_, last, ⟨before.reverse, hsplit⟩, hnamed'⟩
  obtain ⟨piece, rest, heq⟩ := List.exists_cons_of_ne_nil (Text.split_ne_nil '/' (trimEnds path))
  refine ⟨piece, rest, heq, ?_⟩
  rw [← hsplit, heq, List.cons_prefix_cons] at hkept
  exact hkept.1 ▸ hnamed

/-! ## Relative paths -/

theorem named_of_remainder? {base pieces : List Text} {after relative : Text}
    (hpieces : ∀ piece ∈ pieces, '/' ∉ piece) (hafter : named after = pieces.filter isNamed)
    (h : remainder? base ((withRest pieces).filter (isNamed ·.1)) after = some relative) :
    pieces.filter isNamed = base ++ named relative ∧ ∃ path, relative = trimEnds path := by
  induction pieces generalizing base after with
  | nil =>
    cases base with
    | nil =>
      cases h
      rw [named_trimEnds, hafter]
      exact ⟨rfl, _, rfl⟩
    | cons => cases h
  | cons piece rest ih =>
    obtain ⟨hpiece, hrest⟩ := List.forall_mem_cons.1 hpieces
    cases base with
    | nil =>
      obtain rfl : trimEnds after = relative := by
        simpa only [remainder?, Option.some.injEq] using h
      rw [named_trimEnds, hafter]
      exact ⟨rfl, _, rfl⟩
    | cons c base =>
      rw [withRest, List.filter_cons] at h
      by_cases hnamed : isNamed piece
      · rw [if_pos hnamed, remainder?] at h
        split at h
        · next hc =>
          obtain ⟨hnames, hpath⟩ := ih hrest (named_join hrest) h
          rw [List.filter_cons_of_pos hnamed, hnames, hc]
          exact ⟨rfl, hpath⟩
        · cases h
      · rw [if_neg hnamed] at h
        rw [List.filter_cons_of_neg hnamed] at hafter ⊢
        exact ih hrest hafter h

theorem components_ne_nil {path : Text} (h : path ≠ []) : components path ≠ [] := by
  obtain ⟨c, path, rfl⟩ := List.exists_cons_of_ne_nil h
  by_cases hc : c = '/'
  · subst hc
    rw [components_separator]
    exact List.cons_ne_nil _ _
  · obtain ⟨first, rest, hsplit⟩ := List.exists_cons_of_ne_nil (Text.split_ne_nil '/' (c :: path))
    rw [components_of_ne_separator hc hsplit]
    exact List.cons_ne_nil _ _

/-- A relative path has the components that are missing. -/
theorem components_of_relativeTo? {base path relative : Text} (hbase : base ≠ [])
    (h : relativeTo? base path = some relative) :
    components path = components base ++ named relative ∧ ∃ path, relative = trimEnds path := by
  obtain ⟨first, rest, hcomponents⟩ := List.exists_cons_of_ne_nil (components_ne_nil hbase)
  simp only [relativeTo?, hcomponents] at h
  rw [hcomponents]
  cases path with
  | nil => cases h
  | cons c path =>
    by_cases hc : c = '/'
    · subst hc
      rw [parts, remainder?] at h
      split at h
      · next hfirst =>
        obtain ⟨hnames, hpath⟩ := named_of_remainder? Text.notMem_of_mem_split rfl h
        rw [components_separator, hnames, hfirst]
        exact ⟨rfl, hpath⟩
      · cases h
    · obtain ⟨piece, pieces, hsplit⟩ :=
        List.exists_cons_of_ne_nil (Text.split_ne_nil '/' (c :: path))
      have hpieces : ∀ piece ∈ pieces, '/' ∉ piece := fun piece hmem =>
        Text.notMem_of_mem_split (s := c :: path) piece (hsplit ▸ List.mem_cons_of_mem _ hmem)
      have hparts : parts (c :: path) =
          (piece, Text.join ['/'] pieces) :: (withRest pieces).filter (isNamed ·.1) := by
        rw [parts]
        · rw [hsplit]
          rfl
        · simp
        · simpa using hc
      rw [hparts, remainder?] at h
      split at h
      · next hfirst =>
        obtain ⟨hnames, hpath⟩ := named_of_remainder? hpieces (named_join hpieces) h
        rw [components_of_ne_separator hc hsplit, hnames, hfirst]
        exact ⟨rfl, hpath⟩
      · cases h

theorem trimEnd_eq_self {path last : Text} (h : EndsIn path last) (hlast : isNamed last) :
    trimEnd path = path := by
  obtain ⟨init, h⟩ := h
  have hkept : (Text.split '/' path).reverse.dropWhile (!isNamed ·) = last :: init.reverse := by
    rw [h, List.reverse_append, List.reverse_singleton, List.singleton_append,
      List.dropWhile_cons_of_neg (by simpa using hlast)]
  rw [trimEnd, hkept]
  change Text.join ['/'] (last :: init.reverse).reverse = path
  rw [List.reverse_cons, List.reverse_reverse, ← h, Text.join_split]

theorem join_nil_left (path : Text) : join [] path = path := by
  unfold join
  split <;> simp

/-- A path from a folder to a file of the given name: joined to the folder it is the path of the
file again, and it begins with a piece that names something unless the folder has no path. -/
structure IsRelative (base path relative name : Text) : Prop where
  components_join : components (join base relative) = components path
  head?_ne : relative.head? ≠ some '/'
  endsIn : EndsIn relative name
  noHere : base ≠ [] → ¬['.', '/'] <+: relative

theorem isRelative_of_relativeTo? {base path relative name : Text} {above : List Text}
    (hpath : components path = components base ++ (above ++ [name])) (hname : isNamed name)
    (hend : EndsIn path name) (hhead : base = [] → path.head? ≠ some '/')
    (h : relativeTo? base path = some relative) : IsRelative base path relative name := by
  by_cases hbase : base = []
  · subst hbase
    obtain rfl : path = relative := by
      rw [← trimEnd_eq_self hend hname]
      simpa [relativeTo?, components, parts] using h
    exact ⟨by rw [join_nil_left], hhead rfl, hend, fun hne => absurd rfl hne⟩
  · obtain ⟨hcomponents, original, rfl⟩ := components_of_relativeTo? hbase h
    have hnames : named original = above ++ [name] := by
      rw [hcomponents, named_trimEnds] at hpath
      exact List.append_cancel_left hpath
    have htrimmed : Trimmed (trimEnds original) := trimmed_trimEnds (by simp [hnames])
    obtain ⟨piece, hpiece, hnamed⟩ := htrimmed.last
    obtain rfl : piece = name := by
      have hlast := hpiece.getLast?_named hnamed
      rw [named_trimEnds, hnames, List.getLast?_concat] at hlast
      exact (Option.some.inj hlast).symm
    refine ⟨?_, htrimmed.head?_ne, hpiece, fun _ => htrimmed.noHere⟩
    rw [components_join hbase htrimmed.head?_ne, hcomponents]
    rfl

/-! ## Paths with the same components -/

theorem head?_components {path : Text} :
    (components path).head? = some ['/'] ↔ path.head? = some '/' := by
  cases path with
  | nil => simp [components, parts]
  | cons c path =>
    by_cases hc : c = '/'
    · subst hc
      rw [components_separator]
      simp
    · obtain ⟨first, rest, hsplit⟩ := List.exists_cons_of_ne_nil (Text.split_ne_nil '/' (c :: path))
      have hfirst : '/' ∉ first :=
        Text.notMem_of_mem_split (s := c :: path) first (hsplit ▸ List.mem_cons_self)
      rw [components_of_ne_separator hc hsplit]
      simp only [List.head?_cons, Option.some.injEq, hc, iff_false]
      rintro rfl
      exact hfirst (List.mem_singleton_self _)

theorem named_eq_filter (path : Text) :
    named path = (components path).filter fun piece => isNamed piece && piece ≠ ['/'] := by
  have hpieces : ∀ {pieces : List Text}, (∀ piece ∈ pieces, '/' ∉ piece) →
      pieces.filter isNamed =
        (pieces.filter isNamed).filter fun piece => isNamed piece && piece ≠ ['/'] := by
    intro pieces h
    refine (List.filter_eq_self.2 fun piece hpiece => ?_).symm
    obtain ⟨hmem, hnamed⟩ := List.mem_filter.1 hpiece
    have hne : piece ≠ ['/'] := by
      rintro rfl
      exact h _ hmem (List.mem_singleton_self _)
    simp [hnamed, hne]
  cases path with
  | nil => rfl
  | cons c path =>
    by_cases hc : c = '/'
    · subst hc
      rw [components_separator, List.filter_cons_of_neg (by simp),
        ← hpieces Text.notMem_of_mem_split, named, Text.split_cons, if_pos rfl,
        List.filter_cons_of_neg (by decide)]
    · obtain ⟨first, rest, hsplit⟩ := List.exists_cons_of_ne_nil (Text.split_ne_nil '/' (c :: path))
      have hmem : ∀ piece ∈ Text.split '/' (c :: path), '/' ∉ piece := Text.notMem_of_mem_split
      rw [hsplit] at hmem
      obtain ⟨hfirst, hrest⟩ := List.forall_mem_cons.1 hmem
      have hne : first ≠ ['/'] := by
        rintro rfl
        exact hfirst (List.mem_singleton_self _)
      rw [components_of_ne_separator hc hsplit, named, hsplit, List.filter_cons, List.filter_cons,
        ← hpieces hrest]
      simp [hne]

/-- A path below a base is the path itself, or comes after a separator. -/
theorem join_cases (base path : Text) :
    join base path = path ∧ (path.head? = some '/' ∨ base = []) ∨
      path.head? ≠ some '/' ∧ base ≠ [] ∧
        ∃ before, join base path = before ++ '/' :: path ∧ named before = named base := by
  unfold join
  split
  · exact .inl ⟨rfl, .inl rfl⟩
  · next hhead =>
    have hhead : path.head? ≠ some '/' := by
      intro h
      obtain ⟨rest, rfl⟩ := List.head?_eq_some_iff.1 h
      exact hhead rest rfl
    by_cases hbase : base = []
    · subst hbase
      exact .inl ⟨rfl, .inr rfl⟩
    refine .inr ⟨hhead, hbase, ?_⟩
    split
    · next hlast =>
      obtain ⟨before, rfl⟩ : ∃ before, base = before ++ ['/'] := by
        have hlast : base.getLast? = some '/' := by simpa [hbase] using hlast
        exact List.getLast?_eq_some_iff.1 hlast
      refine ⟨before, by simp, ?_⟩
      rw [named, named, Text.split_append_cons, List.filter_append]
      exact (List.append_nil _).symm
    · exact ⟨base, rfl, rfl⟩

theorem EndsIn.join {path piece : Text} (h : EndsIn path piece) (base : Text) :
    EndsIn (join base path) piece := by
  obtain ⟨hjoin, -⟩ | ⟨-, -, before, hjoin, -⟩ := join_cases base path
  · rwa [hjoin]
  · obtain ⟨init, hsplit⟩ := h
    refine ⟨Text.split '/' before ++ init, ?_⟩
    rw [hjoin, Text.split_append_cons, hsplit, List.append_assoc]

theorem endsIn_below {name : Text} (h : '/' ∉ name) (folder : Text) (names : List Text) :
    EndsIn (below folder (names ++ [name])) name := by
  rw [below, List.foldl_append]
  exact EndsIn.join ⟨[], Text.split_of_notMem h⟩ _

theorem named_join_congr {a b : Text} (h : components a = components b) (base : Text) :
    named (join base a) = named (join base b) := by
  have hhead : a.head? = some '/' ↔ b.head? = some '/' := by
    rw [← head?_components, h, head?_components]
  have hnamed : named a = named b := by rw [named_eq_filter, h, ← named_eq_filter]
  obtain ⟨ha, hcase⟩ | ⟨hcase, hbase, before, ha, hbefore⟩ := join_cases base a
  · obtain ⟨hb, -⟩ | ⟨hb, hbase, -⟩ := join_cases base b
    · rw [ha, hb, hnamed]
    · exact absurd hcase (by simp [hhead, hb, hbase])
  · obtain ⟨-, hb⟩ | ⟨-, -, before', hb, hbefore'⟩ := join_cases base b
    · exact absurd hb (by simp [← hhead, hcase, hbase])
    · have hsplit : ∀ s t : Text, named (s ++ '/' :: t) = named s ++ named t := fun s t => by
        rw [named, Text.split_append_cons, List.filter_append]
        rfl
      rw [ha, hb, hsplit, hsplit, hbefore, hbefore', hnamed]

end Path

namespace FileTree

/-- Pieces that name nothing can be left out of a path that ends with one that does. -/
theorem follow_filter {pieces : List Text} {last : Text} (hlast : Path.isNamed last)
    (above : List FileTree) (here : FileTree) :
    follow above here ((pieces ++ [last]).filter Path.isNamed) =
      follow above here (pieces ++ [last]) := by
  induction pieces generalizing above here with
  | nil => rw [List.nil_append, List.filter_singleton, hlast]; rfl
  | cons piece rest ih =>
    rw [List.cons_append]
    cases here with
    | file text? =>
      obtain ⟨piece', rest', hkept⟩ : ∃ piece' rest',
          (piece :: (rest ++ [last])).filter Path.isNamed = piece' :: rest' := by
        refine List.exists_cons_of_ne_nil ?_
        rw [Ne, List.filter_eq_nil_iff]
        exact fun h => h last (by simp) hlast
      rw [hkept]
      rfl
    | folder entries =>
      by_cases hpiece : Path.isNamed piece
      · rw [List.filter_cons_of_pos hpiece]
        simp only [follow, ih]
      · have hskip : piece = [] ∨ piece = ['.'] := by
          simpa [Path.isNamed, or_iff_not_imp_left] using hpiece
        rw [List.filter_cons_of_neg hpiece, ih]
        simp only [follow, hskip, if_true]

end FileTree

/-- What a path leads to is told by its components, if it ends with one. -/
theorem FileSystem.node?_congr {files : FileSystem} {a b piece piece' : Text}
    (h : Path.components a = Path.components b) (ha : Path.EndsIn a piece)
    (hpiece : Path.isNamed piece) (hb : Path.EndsIn b piece') (hpiece' : Path.isNamed piece') :
    files.node? a = files.node? b := by
  have hfollow : ∀ {path piece : Text}, Path.EndsIn path piece → Path.isNamed piece →
      files.node? path =
        FileTree.follow [] files.top (Path.named (Path.join files.workingFolder path)) := by
    intro path piece hend hnamed
    have hne : path ≠ [] := by
      rintro rfl
      have hnone := hend.getLast?_named hnamed
      cases hnone
    obtain ⟨init, hsplit⟩ := hend.join files.workingFolder
    rw [node?, if_neg (by simpa using hne), Path.named, hsplit, FileTree.follow_filter hnamed]
  rw [hfollow ha hpiece, hfollow hb hpiece', Path.named_join_congr h]

end ComponentTags
