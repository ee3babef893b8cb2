import ComponentTags.Path
import ComponentTags.Text.Blank

/-!
# Template names

A template is known by its path below a base folder, with `/` between the parts, without slashes at
the ends and without the file extension. Two names are the same template if they agree in lower
case.
-/

namespace ComponentTags.TemplateName

/-- Removes every `./` in front. -/
def dropHere : Text → Text
  | '.' :: '/' :: s => dropHere s
  | s => s

/-- The name that an author means by a text. -/
def normalize (extension name : Text) : Text :=
  let name := Text.substitute '\\' '/' (Text.trim name)
  let name := Text.stripWhile Path.isSeparator (dropHere name)
  if extension.isEmpty then name else (Text.beforeEnding? extension name).getD name

/-- The name of the template at `path` below `base`. -/
def ofPath? (base extension path : Text) : Option Text :=
  (Path.relativeTo? base path).map fun relative =>
    normalize extension (Text.substitute '\\' '/' relative)

end ComponentTags.TemplateName
