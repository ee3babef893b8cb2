import ComponentTags.Document
import ComponentTags.Document.Name
import ComponentTags.FileSystem
import ComponentTags.Options
import ComponentTags.Error

/-!
# Sites

A site is a folder of template files together with the settings it is read by. Template files are
found by the file extension; hidden entries and excluded paths do not count.
-/

namespace ComponentTags

structure Site where
  files : FileSystem
  /-- The path of the folder that template names start from. -/
  root : Text
  options : Options

namespace Site

def normalize (site : Site) (name : Text) : Text :=
  TemplateName.normalize site.options.extension name

def pathOf (site : Site) (name : Text) : Text :=
  Path.join site.root (name ++ site.options.extension)

def excludes (site : Site) (path : Text) : Bool :=
  (Path.relativeTo? site.root path).any site.options.isExcluded

def read (site : Site) (kind : Source.Kind) (name path : Text) : Except Error Source :=
  match site.files.read path with
  | .error fault => .error (.io fault.message.toList)
  | .ok text => .ok (.ofText name (some path) kind text)

theorem read_eq_ok {site : Site} {kind : Source.Kind} {name path : Text} {source : Source}
    (h : site.read kind name path = .ok source) :
    source.text ∈ site.files.top.texts ∧ source.name = name := by
  unfold read at h
  split at h
  · cases h
  · next hr =>
    cases h
    exact ⟨FileSystem.mem_texts_of_read hr, rfl⟩

/-! ## Template files of a folder -/

def isHidden (name : Text) : Bool :=
  name.head? == some '.'

mutual

/-- The template files in a tree at `path` whose last component is `name`. -/
def filesOf (site : Site) (recursive : Bool) (path name : Text) : FileTree → List Text
  | .file _ => if site.options.extension.isSuffixOf name then [path] else []
  | .folder entries => if recursive then filesIn site recursive path entries else []

/-- The template files among the entries of a folder. -/
def filesIn (site : Site) (recursive : Bool) (folder : Text) :
    List (Text × FileTree) → List Text
  | [] => []
  | (name, tree) :: rest =>
    let path := Path.join folder name
    (if isHidden name || site.excludes path then [] else filesOf site recursive path name tree) ++
      filesIn site recursive folder rest

end

/-- The template files of a folder in the order of their paths. What is no folder has none. -/
def templateFiles (site : Site) (folder : Text) (recursive : Bool) : List Text :=
  match site.files.node? folder with
  | .ok (.folder entries) => (filesIn site recursive folder entries).mergeSort Path.le
  | _ => []

end Site

end ComponentTags
