import ComponentTags.Document.Site
import ComponentTags.Registry.Expanded

/-!
# Components of a site

Every template file in the components folder, at any depth, is a component named by its file.
-/

namespace ComponentTags.Registry

/-- The name that a file gives to a component. -/
def nameOf? (extension path : Text) : Option Text :=
  (Path.fileName? path).bind (Text.beforeEnding? extension)

def addFiles (site : Site) (r : Registry) : List Text → Except Error Registry
  | [] => .ok r
  | path :: rest =>
    match nameOf? site.options.extension path with
    | none => addFiles site r rest
    | some name =>
      match site.files.read path with
      | .error fault => .error (.io fault.message.toList)
      | .ok text => addFiles site (r.insert name text) rest

/-- The components of a site. A missing folder has none. -/
def load (site : Site) : Except Error Registry := do
  let folder := Path.join site.root site.options.componentsFolder
  let r ← addFiles site { folder := site.options.componentsFolder } (site.templateFiles folder true)
  r.expanded

end ComponentTags.Registry
