import ComponentTags.Component
import ComponentTags.Document.Assembly
import ComponentTags.Registry.Expanded

/-!
# Compiled units

The templates of a document and all components, expanded and added to an environment, ready to be
rendered. One expander goes over all files of the document.
-/

namespace ComponentTags

open TemplateLanguage (Environment)

variable [TemplateLanguage]

structure CompiledUnit where
  environment : Environment
  /-- The template that is rendered. -/
  entry : Text
  /-- The names of the document's files. -/
  names : List Text

namespace CompiledUnit

/-- Adds a template to those of a unit. A template of the same name is replaced. -/
def addTemplate (env : Environment) (name text : Text) : Except Error Environment :=
  (TemplateLanguage.addTemplate env name text).mapError fun fault =>
    .templateCompile name (TemplateLanguage.describe fault)

/-- Adds the components, each under the name of its template. -/
def addComponents (folder : Text) (env : Environment) :
    List (Text × Text) → Except Error Environment
  | [] => .ok env
  | (name, text) :: rest => do
    addComponents folder (← addTemplate env (Registry.templateName folder name) text) rest

/-- Adds the components and the function that renders them. -/
def register (components : Registry) (env : Environment) : Except Error Environment := do
  let env ← addComponents components.folder env components.sources
  return TemplateLanguage.addFunction env Call.functionName (Component.function components.folder)

/-- Adds the files of a document, expanded one after the other. -/
def addFiles (expander : Expander) (env : Environment) :
    List Source → Except Error Environment
  | [] => .ok env
  | source :: rest => do
    let result := expander.expand source.prepared
    let _ ← result.passes
    addFiles result.expander (← addTemplate env source.name result.text) rest

/-- Compiles a document into templates that come after those of the components. -/
def compile (env : Environment) (components : Registry) (document : Document) :
    Except Error CompiledUnit := do
  let env ← register components env
  let env ← addFiles { registry := some components } env document.sources
  return { environment := env, entry := document.entry, names := document.names }

def render (unit : CompiledUnit) (data : Data) : Except Error Text := do
  let template ← (TemplateLanguage.lookup unit.environment unit.entry).mapError fun fault =>
    .templateRender (TemplateLanguage.describe fault)
  (TemplateLanguage.render template (TemplateLanguage.ofData data)).mapError fun fault =>
    .templateRender (TemplateLanguage.message fault)

end CompiledUnit

end ComponentTags
