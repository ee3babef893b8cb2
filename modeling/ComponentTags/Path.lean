import ComponentTags.Text.Basic

/-!
# Paths

Paths are texts with `/` between their components. Components ignore repeated separators and, except
in front of a relative path, the component `.`; the spelling of a path is kept all the same.
-/

namespace ComponentTags.Path

def isSeparator (c : Char) : Bool :=
  c == '/'

/-- The pieces between separators, each with the text that follows it. -/
def withRest : List Text → List (Text × Text)
  | [] => []
  | piece :: rest => (piece, Text.join ['/'] rest) :: withRest rest

/-- Whether a piece between separators counts as a component. -/
def isNamed (piece : Text) : Bool :=
  piece ≠ [] && piece ≠ ['.']

/-- The components of a path, each with the text that follows it. The root is a component too. -/
def parts : Text → List (Text × Text)
  | [] => []
  | '/' :: rest => (['/'], rest) :: (withRest (Text.split '/' rest)).filter (isNamed ·.1)
  | path =>
    match withRest (Text.split '/' path) with
    | [] => []
    | first :: rest => first :: rest.filter (isNamed ·.1)

def components (path : Text) : List Text :=
  (parts path).map Prod.fst

/-- The order of paths: component by component. -/
def le (a b : Text) : Bool :=
  !decide (components b < components a)

/-- A path below `base`, unless `path` starts at the root itself. -/
def join (base path : Text) : Text :=
  match path with
  | '/' :: _ => path
  | _ => if base.isEmpty || base.getLast? == some '/' then base ++ path else base ++ '/' :: path

/-- Removes separators and `.` components at both ends. -/
def trimEnds (path : Text) : Text :=
  let pieces := ((Text.split '/' path).dropWhile (!isNamed ·)).reverse
  Text.join ['/'] (pieces.dropWhile (!isNamed ·)).reverse

/-- Removes separators and `.` components at the end, but not the first component. -/
def trimEnd (path : Text) : Text :=
  match (Text.split '/' path).reverse.dropWhile (!isNamed ·) with
  | [] => path.take 1
  | pieces => Text.join ['/'] pieces.reverse

/-- What remains of a path with the given parts after the components of another. -/
def remainder? : List Text → List (Text × Text) → Text → Option Text
  | [], _, rest => some (trimEnds rest)
  | c :: cs, (part, rest) :: parts, _ => if c = part then remainder? cs parts rest else none
  | _ :: _, [], _ => none

/-- The path from `base` to `path`, if it lies below `base` by its components. -/
def relativeTo? (base path : Text) : Option Text :=
  match components base with
  | [] => some (trimEnd path)
  | cs => remainder? cs (parts path) []

/-- The last component, if it is a name. -/
def fileName? (path : Text) : Option Text :=
  match (components path).getLast? with
  | some name => if name = ['/'] ∨ name = ['.'] ∨ name = ['.', '.'] then none else some name
  | none => none

/-- What follows the last dot of the file name, if anything stands before that dot. -/
def extension? (path : Text) : Option Text := do
  let name ← fileName? path
  let ending := name.reverse.takeWhile (· ≠ '.')
  if ending.length + 1 < name.length then some ending.reverse else none

/-! ## Components of joined paths -/

theorem map_fst_withRest (pieces : List Text) : (withRest pieces).map Prod.fst = pieces := by
  induction pieces with
  | nil => rfl
  | cons piece rest ih => rw [withRest, List.map_cons, ih]

theorem map_fst_filter_withRest (pieces : List Text) :
    ((withRest pieces).filter (isNamed ·.1)).map Prod.fst = pieces.filter isNamed := by
  have hfilter : (fun part : Text × Text => isNamed part.1) = isNamed ∘ Prod.fst := rfl
  rw [hfilter, ← List.filter_map, map_fst_withRest]

theorem components_separator (rest : Text) :
    components ('/' :: rest) = ['/'] :: (Text.split '/' rest).filter isNamed := by
  rw [components, parts, List.map_cons, map_fst_filter_withRest]

theorem components_of_ne_separator {c : Char} (h : c ≠ '/') {rest first : Text}
    {pieces : List Text} (hs : Text.split '/' (c :: rest) = first :: pieces) :
    components (c :: rest) = first :: pieces.filter isNamed := by
  rw [components, parts]
  · rw [hs, withRest, List.map_cons, map_fst_filter_withRest]
  · simp
  · simpa using h

/-- What is written after a path and a separator adds components. -/
theorem components_append (path rest : Text) (h : path ≠ []) :
    components (path ++ '/' :: rest) =
      components path ++ (Text.split '/' rest).filter isNamed := by
  cases path with
  | nil => exact absurd rfl h
  | cons c path =>
    by_cases hc : c = '/'
    · subst hc
      rw [List.cons_append, components_separator, components_separator, Text.split_append_cons,
        List.filter_append, List.cons_append]
    · obtain ⟨first, pieces, hs⟩ :=
        List.exists_cons_of_ne_nil (Text.split_ne_nil '/' (c :: path))
      have hs' : Text.split '/' (c :: (path ++ '/' :: rest)) =
          first :: (pieces ++ Text.split '/' rest) := by
        rw [← List.cons_append, Text.split_append_cons, hs, List.cons_append]
      rw [List.cons_append, components_of_ne_separator hc hs, components_of_ne_separator hc hs',
        List.filter_append, List.cons_append]

theorem components_join {base path : Text} (hbase : base ≠ []) (hpath : path.head? ≠ some '/') :
    components (join base path) = components base ++ (Text.split '/' path).filter isNamed := by
  have hjoin : join base path =
      if base.isEmpty || base.getLast? == some '/' then base ++ path else base ++ '/' :: path := by
    unfold join
    split
    · simp at hpath
    · rfl
  rw [hjoin]
  split
  · next hlast =>
    obtain ⟨start, rfl⟩ : ∃ start, base = start ++ ['/'] := by
      have hlast : base.getLast? = some '/' := by simpa [hbase] using hlast
      exact List.getLast?_eq_some_iff.1 hlast
    have hnone : (Text.split '/' []).filter isNamed = [] := by decide
    rw [List.append_assoc, List.singleton_append]
    cases start with
    | nil => rw [List.nil_append, List.nil_append, components_separator, components_separator,
        hnone, List.singleton_append]
    | cons c start =>
      rw [components_append _ _ (by simp), components_append _ _ (by simp), hnone, List.append_nil]
  · exact components_append base path hbase

theorem components_prefix_join (base : Text) {path : Text} (hpath : path.head? ≠ some '/') :
    components base <+: components (join base path) := by
  by_cases hbase : base = []
  · subst hbase
    exact List.nil_prefix
  · rw [components_join hbase hpath]
    exact List.prefix_append _ _

/-- What lies below a folder by its components has a path from there. -/
theorem isSome_relativeTo? {base path : Text} (h : components base <+: components path) :
    (relativeTo? base path).isSome := by
  have hremainder : ∀ (cs : List Text) (ps : List (Text × Text)) (rest : Text),
      cs <+: ps.map Prod.fst → (remainder? cs ps rest).isSome := by
    intro cs
    induction cs with
    | nil => intro ps rest _; rw [remainder?]; rfl
    | cons c cs ih =>
      intro ps rest h
      cases ps with
      | nil => simp at h
      | cons part ps =>
        obtain ⟨name, after⟩ := part
        rw [List.map_cons, List.cons_prefix_cons] at h
        rw [remainder?, if_pos h.1]
        exact ih ps after h.2
  unfold relativeTo?
  split
  · rfl
  · next cs hcs =>
    apply hremainder
    exact h

end ComponentTags.Path
