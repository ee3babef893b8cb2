import ComponentTags.Data

/-!
# Template languages

The language of templates and its engine, as far as units are compiled and rendered with them. What
an engine answers depends on what it is given alone.
-/

namespace ComponentTags

class TemplateLanguage where
  /-- Templates by name, functions and settings. -/
  Environment : Type
  /-- A template of an environment, ready to be rendered. -/
  Template : Type
  Value : Type
  /-- The named arguments of a call. -/
  Named : Type
  Fault : Type
  /-- The environment that every unit starts from. Line breaks at the ends of templates are kept. -/
  start (escapes : Bool) : Environment
  /-- Adds a template, in the place of one of the same name. -/
  addTemplate (env : Environment) (name text : Text) : Except Fault Environment
  /-- Adds a function of a text and a value, with named arguments. When it is called it is also
  given what looks up the templates of the environment. -/
  addFunction (env : Environment) (name : Text)
    (f : (Text → Except Fault Template) → Text → Value → Named → Except Fault Value) : Environment
  lookup (env : Environment) (name : Text) : Except Fault Template
  source : Template → Text
  /-- Renders a template in which the entries of a value can be named. -/
  render : Template → Value → Except Fault Text
  ofData : Data → Value
  /-- A safe text is output as it is. -/
  ofText (s : Text) (safe : Bool) : Value
  ofBool : Bool → Value
  ofEntries : List (Text × Value) → Value
  /-- The keys of a map, or the items of another value, if it has any. -/
  keys? : Value → Option (List Value)
  item (whole key : Value) : Except Fault Value
  print : Value → Text
  namedText : Named → Text → Except Fault Text
  namedBool : Named → Text → Except Fault Bool
  namedValue? : Named → Text → Except Fault (Option Value)
  /-- Accepts no other arguments than those of the given names. -/
  checkNames : Named → List Text → Except Fault Unit
  templateNotFound (detail : Text) : Fault
  /-- What a fault says, without its causes. -/
  describe : Fault → Text
  /-- What the causes of a fault say, the nearest one first. -/
  causes : Fault → List Text

namespace TemplateLanguage

variable [TemplateLanguage]

/-- A function that templates can call. -/
abbrev Function :=
  (Text → Except Fault Template) → Text → Value → Named → Except Fault Value

/-- What a fault and its causes say. -/
def message (fault : Fault) : Text :=
  describe fault ++ (causes fault).flatMap (": ".toList ++ ·)

/-- The source of the template of a name. -/
def source? (env : Environment) (name : Text) : Option Text :=
  (lookup env name).toOption.map source

/-- What environments are documented to hold: each template under the name and with the source that
it was added with last. -/
class Lawful [TemplateLanguage] : Prop where
  source?_addTemplate_self {env env' : Environment} {name text : Text} :
    addTemplate env name text = .ok env' → source? env' name = some text
  source?_addTemplate_of_ne {env env' : Environment} {name other text : Text} :
    addTemplate env name text = .ok env' → other ≠ name → source? env' other = source? env other
  source?_addFunction (env : Environment) (name : Text) (f : Function) (other : Text) :
    source? (addFunction env name f) other = source? env other

end TemplateLanguage

end ComponentTags
