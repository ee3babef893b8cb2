import ComponentTags.Engine
import ComponentTags.Template.Rendering

/-!
# A small template language

The language that the program is run with.
-/

namespace ComponentTags

namespace Template

namespace Value

/-- The keys of a map, or the items of another value, if it has any. -/
def keys? : Value → Option (List Value)
  | undefined => some []
  | null => some []
  | text s _ => some (s.map fun c => text [c] false)
  | list items => some items
  | map entries => some (entries.map fun e => text e.1 false)
  | _ => none

def isNull : Value → Bool
  | undefined => true
  | null => true
  | _ => false

def toBool : Value → Except Fault Bool
  | bool b => .ok b
  | v => .error (.invalidOperation s!"cannot convert {v.kind} to bool".toList)

end Value

/-- The argument of a name, which has to be there. -/
def required (named : List (Text × Value)) (key : Text) : Except Fault Value :=
  match Keyed.find? key named with
  | none => .error (.missingNamed (String.ofList key))
  | some v => .ok v

def checkNames (named : List (Text × Value)) (known : List Text) : Except Fault Unit :=
  match named.find? fun e => !known.contains e.1 with
  | some (key, _) =>
    .error (.tooManyArguments ("unknown keyword argument '".toList ++ key ++ ['\'']))
  | none => .ok ()

namespace Environment

def add (env : Environment) (name text : Text) : Except Fault Environment :=
  match read? text with
  | none => .error .syntaxError
  | some template => .ok { env with templates := Keyed.insert name template env.templates }

def addFunction (env : Environment) (name : Text) (f : Function) : Environment :=
  { env with functions := Keyed.insert name f env.functions }

def addFilter (name : Text) (f : Text → Text) (env : Environment) : Environment :=
  { env with filters := (name, f) :: env.filters }

end Environment

instance language : TemplateLanguage where
  Environment := Environment
  Template := Loaded
  Value := Value
  Named := List (Text × Value)
  Fault := Fault
  start escapes := { escapes }
  addTemplate := Environment.add
  addFunction := Environment.addFunction
  lookup env := env.load (run env maxEntered)
  source := Loaded.source
  render := Loaded.render
  ofData := .ofData
  ofText := .text
  ofBool := .bool
  ofEntries := .map
  keys? := Value.keys?
  item whole key :=
    if whole.isUndefined then .error .undefinedValue else .ok (whole.item key)
  print := Value.print
  namedText named key := (required named key).map Value.print
  namedBool named key := required named key >>= Value.toBool
  namedValue? named key := .ok ((Keyed.find? key named).filter (!·.isNull))
  checkNames := checkNames
  templateNotFound := .templateNotFound
  describe := Fault.describe
  causes := Fault.causes

end Template

/-- An engine of the small language with another filter. -/
def Engine.withFilter (name : Text) (f : Text → Text) (e : Engine) : Engine :=
  e.withSetup (Template.Environment.addFilter name f)

end ComponentTags
