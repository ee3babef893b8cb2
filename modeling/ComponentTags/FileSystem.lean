import ComponentTags.Path

/-!
# File systems

The files that templates, settings and data are read from, as a value. A path is followed piece by
piece from the top, and every piece but the last has to be a folder.
-/

namespace ComponentTags

inductive FileTree where
  /-- A file and its text, unless its bytes are no UTF-8. -/
  | file (text? : Option Text)
  | folder (entries : List (Text × FileTree))
deriving Inhabited

/-- Why a file cannot be read. -/
inductive ReadFault where
  | missing
  | throughFile
  | isFolder
  | invalidText
deriving DecidableEq, Repr

def ReadFault.message : ReadFault → String
  | missing => "No such file or directory (os error 2)"
  | throughFile => "Not a directory (os error 20)"
  | isFolder => "Is a directory (os error 21)"
  | invalidText => "stream did not contain valid UTF-8"

namespace FileTree

def child? (name : Text) : List (Text × FileTree) → Option FileTree
  | [] => none
  | (n, tree) :: rest => if n = name then some tree else child? name rest

/-- Follows the pieces of a path. `above` are the folders around `here`, the innermost first. -/
def follow (above : List FileTree) (here : FileTree) : List Text → Except ReadFault FileTree
  | [] => .ok here
  | piece :: rest =>
    match here with
    | .file _ => .error .throughFile
    | .folder entries =>
      if piece = [] ∨ piece = ['.'] then follow above here rest
      else if piece = ['.', '.'] then
        match above with
        | [] => follow [] here rest
        | parent :: above => follow above parent rest
      else
        match child? piece entries with
        | none => .error .missing
        | some child => follow (here :: above) child rest

mutual

/-- The texts of all files. -/
def texts : FileTree → List Text
  | .file text? => text?.toList
  | .folder entries => entriesTexts entries

def entriesTexts : List (Text × FileTree) → List Text
  | [] => []
  | (_, tree) :: rest => tree.texts ++ entriesTexts rest

end

/-- Puts a tree at a path of names. Folders on the way are made, and a file in the way is
replaced. -/
def insert : FileTree → List Text → FileTree → FileTree
  | _, [], new => new
  | .file _, name :: path, new => .folder [(name, insert (.folder []) path new)]
  | .folder entries, name :: path, new =>
    match child? name entries with
    | none => .folder (entries ++ [(name, insert (.folder []) path new)])
    | some child =>
      .folder (entries.map fun e => if e.1 = name then (name, insert child path new) else e)

/-- Removes what is at a path of names. -/
def remove : FileTree → List Text → FileTree
  | tree, [] => tree
  | .file text?, _ => .file text?
  | .folder entries, [name] => .folder (entries.filter (·.1 ≠ name))
  | .folder entries, name :: path =>
    match child? name entries with
    | none => .folder entries
    | some child =>
      .folder (entries.map fun e => if e.1 = name then (name, remove child path) else e)

theorem mem_entriesTexts {name text : Text} {child : FileTree} {entries : List (Text × FileTree)}
    (h : child? name entries = some child) (ht : text ∈ child.texts) :
    text ∈ entriesTexts entries := by
  induction entries with
  | nil => simp [child?] at h
  | cons e rest ih =>
    obtain ⟨n, tree⟩ := e
    simp only [entriesTexts, List.mem_append]
    unfold child? at h
    split at h
    · cases h
      exact .inl ht
    · exact .inr (ih h)

/-- What holds of a tree and of the folders around it, and goes over to what a folder holds, holds
of the tree that a path leads to. -/
theorem follow_invariant {P : FileTree → Prop}
    (hchild : ∀ name entries child, child? name entries = some child → P (.folder entries) →
      P child)
    {pieces : List Text} {above : List FileTree} {here found : FileTree}
    (h : follow above here pieces = .ok found) (hhere : P here) (habove : ∀ a ∈ above, P a) :
    P found := by
  induction pieces generalizing above here with
  | nil =>
    cases h
    exact hhere
  | cons piece rest ih =>
    unfold follow at h
    split at h
    · cases h
    · next entries =>
      split at h
      · exact ih h hhere habove
      · split at h
        · split at h
          · exact ih h hhere (by simp)
          · next parent above =>
            exact ih h (habove parent (by simp)) fun a ha => habove a (by simp [ha])
        · split at h
          · cases h
          · next child hc =>
            refine ih h (hchild piece entries child hc hhere) ?_
            intro a ha
            rcases List.mem_cons.1 ha with rfl | ha
            · exact hhere
            · exact habove a ha

/-- A path that can be followed ends at a tree whose texts are in the whole. -/
theorem texts_of_follow {all : List Text} {pieces : List Text} {above : List FileTree}
    {here found : FileTree} (h : follow above here pieces = .ok found)
    (hhere : ∀ t ∈ here.texts, t ∈ all) (habove : ∀ a ∈ above, ∀ t ∈ a.texts, t ∈ all) :
    ∀ t ∈ found.texts, t ∈ all := by
  refine follow_invariant ?_ h hhere habove
  intro name entries child hc hentries t ht
  apply hentries
  simp only [FileTree.texts]
  exact mem_entriesTexts hc ht

/-! ## Names of entries -/

mutual

/-- The names of all entries, at any depth. -/
def names : FileTree → List Text
  | .file _ => []
  | .folder entries => entriesNames entries

def entriesNames : List (Text × FileTree) → List Text
  | [] => []
  | (name, tree) :: rest => name :: (tree.names ++ entriesNames rest)

end

theorem mem_of_child? {name : Text} {child : FileTree} {entries : List (Text × FileTree)}
    (h : child? name entries = some child) : (name, child) ∈ entries := by
  induction entries with
  | nil => simp [child?] at h
  | cons e rest ih =>
    obtain ⟨n, tree⟩ := e
    unfold child? at h
    split at h
    · next hn =>
      cases h
      simp [hn]
    · exact List.mem_cons_of_mem _ (ih h)

theorem mem_entriesNames {name child : Text} {tree : FileTree} {entries : List (Text × FileTree)}
    (h : (child, tree) ∈ entries) (hn : name ∈ child :: tree.names) :
    name ∈ entriesNames entries := by
  induction entries with
  | nil => simp at h
  | cons e rest ih =>
    obtain ⟨n, tree'⟩ := e
    simp only [entriesNames, ← List.cons_append, List.mem_append]
    rcases List.mem_cons.1 h with heq | h
    · cases heq
      exact .inl hn
    · exact .inr (ih h)

end FileTree

structure FileSystem where
  top : FileTree
  /-- The folder that relative paths start from. -/
  workingFolder : Text := ['/']

namespace FileSystem

def node? (fs : FileSystem) (path : Text) : Except ReadFault FileTree :=
  if path.isEmpty then .error .missing
  else FileTree.follow [] fs.top (Text.split '/' (Path.join fs.workingFolder path))

def isFile (fs : FileSystem) (path : Text) : Bool :=
  match fs.node? path with
  | .ok (.file _) => true
  | _ => false

def isFolder (fs : FileSystem) (path : Text) : Bool :=
  match fs.node? path with
  | .ok (.folder _) => true
  | _ => false

def read (fs : FileSystem) (path : Text) : Except ReadFault Text :=
  match fs.node? path with
  | .error fault => .error fault
  | .ok (.folder _) => .error .isFolder
  | .ok (.file none) => .error .invalidText
  | .ok (.file (some text)) => .ok text

/-- What is read is the text of a file. -/
theorem mem_texts_of_read {fs : FileSystem} {path text : Text} (h : fs.read path = .ok text) :
    text ∈ fs.top.texts := by
  unfold read at h
  split at h
  · cases h
  · cases h
  · cases h
  · next t hn =>
    cases h
    unfold node? at hn
    split at hn
    · cases hn
    · exact FileTree.texts_of_follow hn (fun _ h => h) (by simp) _ (by simp [FileTree.texts])

/-- The names of all entries are names that files can have. -/
def HasFileNames (fs : FileSystem) : Prop :=
  ∀ name ∈ fs.top.names, '/' ∉ name

theorem names_of_node? {fs : FileSystem} (h : fs.HasFileNames) {path : Text} {tree : FileTree}
    (hn : fs.node? path = .ok tree) : ∀ name ∈ tree.names, '/' ∉ name := by
  unfold node? at hn
  split at hn
  · cases hn
  · refine FileTree.follow_invariant (P := fun t => ∀ name ∈ t.names, '/' ∉ name) ?_ hn h (by simp)
    intro child entries tree hc hentries name hname
    apply hentries
    simp only [FileTree.names]
    exact FileTree.mem_entriesNames (FileTree.mem_of_child? hc) (List.mem_cons_of_mem _ hname)

end FileSystem

end ComponentTags
