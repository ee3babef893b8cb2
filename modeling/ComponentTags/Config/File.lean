import ComponentTags.Config
import ComponentTags.Data.Toml
import ComponentTags.Error
import ComponentTags.FileSystem

/-!
# Configuration files

The configuration of a folder is the first of three files in it that exists. Keys that mean nothing
are ignored, but the value of a known key has to be of its type.
-/

namespace ComponentTags

namespace Toml

/-- The value under a key, if `convert` accepts it, and `default` without the key. -/
def setting? {α : Type} (entries : List (Text × Value)) (key : String) (default : α)
    (convert : Value → Option α) : Option α :=
  match Keyed.find? key.toList entries with
  | none => some default
  | some v => convert v

def Value.string? : Value → Option Text
  | .string s => some s
  | _ => none

def Value.boolean? : Value → Option Bool
  | .boolean b => some b
  | _ => none

def Value.strings? : Value → Option (List Text)
  | .array items => items.mapM string?
  | _ => none

end Toml

namespace Config

def ofToml? (entries : List (Text × Toml.Value)) : Option Config := do
  let default : Config := {}
  return {
    extension := ← Toml.setting? entries "extension" default.extension Toml.Value.string?
    sharedFolder := ← Toml.setting? entries "shared_folder" default.sharedFolder Toml.Value.string?
    componentsFolder :=
      ← Toml.setting? entries "components_folder" default.componentsFolder Toml.Value.string?
    debug := ← Toml.setting? entries "debug" default.debug Toml.Value.boolean?
    autoescape := ← Toml.setting? entries "autoescape" default.autoescape Toml.Value.boolean?
    exclude := ← Toml.setting? entries "exclude" default.exclude Toml.Value.strings? }

/-- The places of a configuration file, the one that counts most first. -/
def candidates : List Text :=
  ["tagplate.toml".toList, ".tagplate.toml".toList, ".config/tagplate.toml".toList]

def path? (files : FileSystem) (root : Text) : Option Text :=
  (candidates.map (Path.join root)).find? files.isFile

/-- The configuration of a folder, if it has one. -/
def load (files : FileSystem) (root : Text) : Except Error (Option Config) :=
  match path? files root with
  | none => .ok none
  | some path =>
    match files.read path with
    | .error fault => .error (.io fault.message.toList)
    | .ok content =>
      match Toml.read? content with
      | none => .error (.configParse "invalid document".toList)
      | some entries =>
        match ofToml? entries with
        | none => .error (.configParse "invalid type of a setting".toList)
        | some config => .ok (some config)

end Config

end ComponentTags
