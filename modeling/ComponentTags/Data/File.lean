import ComponentTags.Data.Json
import ComponentTags.Data.Toml
import ComponentTags.Data.Yaml
import ComponentTags.Error
import ComponentTags.FileSystem
import ComponentTags.Text.LetterCase

/-!
# Data files

Data for rendering comes in one of three formats, which the ending of the file name tells.
-/

namespace ComponentTags.Data

inductive Format where
  | json
  | toml
  | yaml
deriving DecidableEq, Repr

def Format.ofName? (name : Text) : Option Format :=
  match String.ofList name with
  | "json" => some json
  | "toml" => some toml
  | "yaml" => some yaml
  | "yml" => some yaml
  | _ => none

/-- Reads a document, or tells why it cannot be data. -/
def readAs (format : Format) (content : Text) : Except Text Data :=
  match format with
  | .json => (Json.read? content).elim (.error "invalid JSON".toList) .ok
  | .toml =>
    match Toml.read? content with
    | none => .error "invalid TOML".toList
    | some entries =>
      match Toml.entriesToData entries with
      | .ok entries => .ok (.map entries)
      | .error number =>
        .error ('\x60' :: number ++ '\x60' :: " cannot be represented as a JSON number".toList)
  | .yaml => (Yaml.read? content).elim (.error "invalid YAML".toList) .ok

/-- Reads the content of the file at `path`, whose format is given by name. -/
def parse (format content path : Text) : Except Error Data :=
  match Format.ofName? format with
  | none => .error (.unsupportedDataFormat format)
  | some format => (readAs format content).mapError (.dataFile path)

def load (files : FileSystem) (path : Text) : Except Error Data :=
  match files.read path with
  | .error fault => .error (.dataFile path fault.message.toList)
  | .ok content =>
    parse (Text.asciiLower ((Path.extension? path).getD [])) content path

end ComponentTags.Data
