import ComponentTags.Text.Basic

/-!
# Errors

Everything that can go wrong between a template source and its rendered text, one constructor per
cause. `message` is the sentence shown to the author, `code` a stable identifier of the cause and
`help` a hint where there is one.
-/

namespace ComponentTags

inductive Error where
  | io (reason : Text)
  /-- A quote inside a tag head is never closed. -/
  | unterminatedString (tag : Text) (line : Nat)
  /-- The source ends inside a tag. -/
  | missingClosingBracket (tag : Text) (line : Nat)
  | unexpectedToken (tag expected found : Text) (line : Nat)
  | missingClosingTag (tag : Text) (line : Nat)
  | mismatchedClosingTag (expected found : Text) (line : Nat)
  | unmatchedClosingTag (tag : Text) (line : Nat)
  | unknownComponent (name : Text) (line : Nat)
  | templateNotFound (name path : Text)
  | layoutNotFound (layout template : Text)
  | layoutCycle (chain : Text)
  | noTemplates
  | templateCompile (name reason : Text)
  | templateRender (reason : Text)
  | configParse (reason : Text)
  | dataFile (path reason : Text)
  | unsupportedDataFormat (format : Text)
deriving DecidableEq, Repr

namespace Error

private def shown (s : Text) : String :=
  String.ofList s

def message : Error → String
  | io reason => shown reason
  | unterminatedString tag line => s!"unterminated string in `<{shown tag}>` on line {line}"
  | missingClosingBracket tag line =>
    s!"closing bracket '>' not found for tag `<{shown tag}>` at line {line}"
  | unexpectedToken tag expected found line =>
    s!"expected {shown expected} in `<{shown tag}>` on line {line}, found `{shown found}`"
  | missingClosingTag tag line =>
    s!"missing closing tag for `<{shown tag}>` opened on line {line}"
  | mismatchedClosingTag expected found line =>
    s!"expected closing tag `</{shown expected}>` but found `</{shown found}>` on line {line}"
  | unmatchedClosingTag tag line =>
    s!"closing tag `</{shown tag}>` on line {line} has no matching opening tag"
  | unknownComponent name line =>
    s!"no component named `{shown name}` for tag on line {line}"
  | templateNotFound name path => s!"template `{shown name}` not found at `{shown path}`"
  | layoutNotFound layout template =>
    s!"layout `{shown layout}` extended by `{shown template}` not found"
  | layoutCycle chain => s!"layout cycle detected: {shown chain}"
  | noTemplates => "no templates specified"
  | templateCompile name reason =>
    s!"failed to compile template `{shown name}`: {shown reason}"
  | templateRender reason => s!"template rendering failed: {shown reason}"
  | configParse reason => s!"failed to parse config file: {shown reason}"
  | dataFile path reason => s!"failed to load data file `{shown path}`: {shown reason}"
  | unsupportedDataFormat format => s!"unsupported data file format: `{shown format}`"

def code : Error → String
  | io _ => "tagplate::io_error"
  | unterminatedString .. => "tagplate::unterminated_string"
  | missingClosingBracket .. => "tagplate::missing_closing_bracket"
  | unexpectedToken .. => "tagplate::unexpected_token"
  | missingClosingTag .. => "tagplate::missing_closing_tag"
  | mismatchedClosingTag .. => "tagplate::mismatched_closing_tag"
  | unmatchedClosingTag .. => "tagplate::unmatched_closing_tag"
  | unknownComponent .. => "tagplate::unknown_component"
  | templateNotFound .. => "tagplate::template_not_found"
  | layoutNotFound .. => "tagplate::layout_not_found"
  | layoutCycle _ => "tagplate::layout_cycle"
  | noTemplates => "tagplate::no_templates"
  | templateCompile .. => "tagplate::template_compile"
  | templateRender _ => "tagplate::template_render"
  | configParse _ => "tagplate::config_parse"
  | dataFile .. => "tagplate::data_file"
  | unsupportedDataFormat _ => "tagplate::unsupported_format"

def help : Error → Option String
  | unterminatedString .. =>
    some "quotes inside an attribute value must be balanced in pairs or escaped with `\\`"
  | missingClosingTag tag _ =>
    some s!"add `</{shown tag}>` to close this block or end the tag with `/>`"
  | unknownComponent name _ => some s!"add a `{shown name}` template to the components folder"
  | layoutNotFound _ template =>
    some s!"check the `\x7b# extends \"...\" #\x7d` directive in `{shown template}`"
  | configParse _ => some "check that tagplate.toml is valid TOML"
  | unsupportedDataFormat _ => some "supported formats: json, toml, yaml, yml"
  | _ => none

end Error

end ComponentTags
