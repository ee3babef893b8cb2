import ComponentTags.Cache
import ComponentTags.CompiledUnit
import ComponentTags.Config.File
import ComponentTags.Registry.Loading

/-!
# Engine

Renders the templates of a folder. Compiled units are kept by layout and name. In debug mode nothing
is kept and the components are loaded anew each time. The files may change between two requests, so
every request is given the files it is to see.
-/

namespace ComponentTags

open TemplateLanguage (Environment)

variable [TemplateLanguage]

structure Engine where
  root : Text
  options : Options
  components : Registry
  cache : Cache CompiledUnit := {}
  isDebug : Bool
  /-- What is done to each new environment, in this order. -/
  setup : List (Environment → Environment) := []

namespace Engine

/-- An engine for the templates below `root`. -/
def create (files : FileSystem) (root : Text) (options : Options) : Except Error Engine := do
  let components ← Registry.load { files, root, options }
  return { root, options, components, isDebug := options.debug }

/-- An engine with the configuration that is found at `root`. -/
def fromConfig (files : FileSystem) (root : Text) (debugVariable : Option Text)
    (pattern? : Text → Option (Text → Bool) := Glob.accepts?) : Except Error Engine := do
  let config := (← Config.load files root).getD {}
  create files root (.ofConfig debugVariable config pattern?)

def withSetup (f : Environment → Environment) (e : Engine) : Engine :=
  { e with setup := e.setup ++ [f] }

def setDebug (debug : Bool) (e : Engine) : Engine :=
  { e with isDebug := debug }

def clearCache (e : Engine) : Engine :=
  { e with cache := e.cache.clear }

def counters (e : Engine) : Cache.Counters :=
  e.cache.counters

/-- Whether a compiled unit of this name is kept. -/
def exists? (e : Engine) (name : Text) : Bool :=
  e.cache.containsName name

def site (e : Engine) (files : FileSystem) : Site :=
  { files, root := e.root, options := e.options }

/-- The files that are compiled together for a name. -/
def document (e : Engine) (files : FileSystem) (name : Text) : Except Error Document :=
  (e.site files).assemble none name []

/-- The text with the component tags of one source made into calls. -/
def expandSource (e : Engine) (source : Text) : Except Error Text :=
  let result := Expander.expand { registry := some e.components } source
  result.passes.map fun _ => result.text

/-- The environment that the units of an engine start from. -/
def environment (e : Engine) : Environment :=
  e.setup.foldl (fun env f => f env) (TemplateLanguage.start e.options.autoescape)

def compile (e : Engine) (files : FileSystem) (document : Document) :
    Except Error CompiledUnit := do
  let components ← if e.isDebug then Registry.load (e.site files) else .ok e.components
  CompiledUnit.compile e.environment components document

/-! ## Requests -/

/-- What is rendered: a template in a layout, compiled together with other files. -/
structure Request where
  layout : Option Text := none
  name : Text
  extras : List Text := []
deriving DecidableEq, Repr

namespace Request

/-- The key that the unit of a request is kept under. The names stand in it with commas between. -/
def key (request : Request) : Cache.Key where
  layout := request.layout
  name := Text.join [','] (request.name :: request.extras)

end Request

/-- Assembles and compiles the unit of a request. -/
def build (e : Engine) (files : FileSystem) (request : Request) : Except Error CompiledUnit := do
  e.compile files (← (e.site files).assemble request.layout request.name request.extras)

/-- The unit of a request, kept or built. -/
def compiled (e : Engine) (files : FileSystem) (request : Request) :
    Except Error CompiledUnit × Engine :=
  if e.isDebug then
    match e.build files request with
    | .error error => (.error error, e)
    | .ok unit => (.ok unit, { e with cache := e.cache.recordCompile })
  else
    let (unit, cache) := e.cache.getOrCompile request.key fun _ => e.build files request
    (unit, { e with cache })

/-- Renders a request. A blank name asks for no template. -/
def render (e : Engine) (files : FileSystem) (request : Request) (data : Data) :
    Except Error Text × Engine :=
  if (Text.trim request.name).isEmpty then (.error .noTemplates, e)
  else
    let (unit, e) := e.compiled files request
    (unit.bind (·.render data), e)

/-- Renders the first of some templates, compiled together with the others. -/
def renderFiles (e : Engine) (files : FileSystem) (names : List Text) (data : Data) :
    Except Error Text × Engine :=
  match names with
  | [] => (.error .noTemplates, e)
  | name :: extras => e.render files { name, extras } data

/-- Renders a source that is given as text. Its unit is not kept. -/
def renderText (e : Engine) (files : FileSystem) (layout : Option Text) (source : Text)
    (data : Data) : Except Error Text × Engine :=
  match (e.site files).assembleInline layout source >>= e.compile files with
  | .error error => (.error error, e)
  | .ok unit => (unit.render data, { e with cache := e.cache.recordCompile })

end Engine

end ComponentTags
