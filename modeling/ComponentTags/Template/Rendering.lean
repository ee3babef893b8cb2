import ComponentTags.Template.State
import ComponentTags.Text.LetterCase

/-!
# Rendering

Statements and expressions are evaluated by recursion on their form. Whatever leads to the code of
another place (a block, another template, a definition) goes through the function
`enter`, and the number of such steps inside one another is bounded.
-/

namespace ComponentTags.Template

/-- Renders the code of another place in the current state. -/
abbrev Enter := List Statement → Run Text

namespace Run

/-- Places the fault of a step that has none yet. -/
def located {α : Type} (line : Nat) (r : Run α) : Run α := fun st =>
  (r st).mapError (Fault.placed st.template line)

def emit (s : Text) : Run Text := do
  return if (← get).quiet then [] else s

/-- Runs with a new innermost frame. -/
def withFrame {α : Type} (frame : Frame) (r : Run α) : Run α := do
  if (← get).isTooDeep then throw .tooDeep
  modify fun st => { st with frames := frame :: st.frames }
  let result ← r
  modify fun st => { st with frames := st.frames.tail }
  return result

/-- Runs with output dropped or kept. -/
def withQuiet {α : Type} (quiet : Bool) (r : Run α) : Run α := do
  let before := (← get).quiet
  modify fun st => { st with quiet }
  let result ← r
  modify fun st => { st with quiet := before }
  return result

end Run

open Run (located emit withFrame withQuiet)

def templateName : Value → Run Text
  | .text s _ => return s
  | _ => throw (.invalidOperation "template name was not a string".toList)

/-! ## Functions of the environment -/

/-- Renders a template on its own, with nothing of the current state. -/
def renderAlone (enter : Enter) (name : Text) (template : Template) (values : Value) :
    Except Fault Text :=
  (enter template.body (State.initial name template values)).map Prod.fst

def Environment.load (env : Environment) (enter : Enter) (name : Text) : Except Fault Loaded :=
  match env.template? name with
  | none =>
    .error (.templateNotFound
      ("template ".toList ++ Value.shownText name ++ " does not exist".toList))
  | some template => .ok { source := template.source, render := renderAlone enter name template }

/-- Calls a function of the environment. -/
def applyFunction (env : Environment) (enter : Enter) (f : Function) (positional : List Value)
    (named : List (Text × Value)) : Run Value :=
  match positional with
  | [s, v] => fun st => (f (env.load enter) s.print v named).map (·, st)
  | _ :: _ :: _ => throw .surplusArguments
  | _ => throw .missingArgument

/-! ## Definitions -/

/-- The value passed for a parameter. -/
def argumentFor (parameter : Text) (positional : Option Value) (named : List (Text × Value)) :
    Run Value :=
  match positional, Keyed.find? parameter named with
  | some _, some _ =>
    throw (.tooManyArguments ("duplicate argument \x60".toList ++ parameter ++ ['\x60']))
  | some v, none => return v
  | none, some v => return v
  | none, none => return .undefined

/-- Pairs the parameters of a definition with the values passed for them. -/
def bindArguments (parameters : List (Text × Option Expression)) (positional : List Value)
    (named : List (Text × Value)) : Run (List (Text × Option Expression × Value)) :=
  match parameters with
  | [] =>
    if positional.isEmpty then return []
    else throw .surplusArguments
  | (parameter, default) :: rest => do
    let v ← argumentFor parameter positional.head? named
    return (parameter, default, v) :: (← bindArguments rest positional.tail named)

/-- Runs in a frame of its own over a scope, and comes back to the current state. -/
def withinScope (c : Callable) (r : Run Text) : Run Text := do
  let outer ← get
  let inner : State :=
    { frames := [{ base := .scope c.scope }], scopes := outer.scopes
      depth := outer.depth + outer.frames.length + 4, template := c.template }
  if inner.isTooDeep then throw .tooDeep
  set inner
  let result ← r
  modify fun st => { outer with scopes := st.scopes }
  return result

/-- The statements that give a parameter its default. -/
def defaultFor (parameter : Text) : Option Expression → List Statement
  | none => []
  | some e => [.assign parameter e]

/-- Calls a definition. Parameters without a value get their defaults, the last one first. -/
def callDefinition (env : Environment) (enter : Enter) (c : Callable) (positional : List Value)
    (named : List (Text × Value)) : Run Value := do
  if c.parameters.length < positional.length then throw .surplusArguments
  let bound ← bindArguments c.parameters positional named
  match named.find? fun e => !c.parameters.any (·.1 == e.1) with
  | some (key, _) =>
    throw (.tooManyArguments ("unknown keyword argument \x60".toList ++ key ++ ['\x60']))
  | none =>
    let output ← withinScope c do
      for (parameter, default, v) in bound.reverse do
        if v.isUndefined && default.isSome then
          let _ ← enter (defaultFor parameter default)
        else modify (State.assign parameter v)
      enter c.body
    return .text output env.escapes

/-- Makes a definition in the innermost frame. -/
def define (name : Text) (parameters : List (Text × Option Expression)) (body : List Statement) :
    Run Unit :=
  modify fun st =>
    let (scope, st) := st.openScope
    let st := (Statement.define name parameters body).names.foldl (State.enclose scope) st
    st.assign name (.callable ⟨st.template, name, parameters, body, scope⟩)

def callFunction (env : Environment) (enter : Enter) (function : Text) (positional : List Value)
    (named : List (Text × Value)) : Run Value := do
  match (← get).lookup? function with
  | some (.callable c) => callDefinition env enter c positional named
  | some v => throw (.invalidOperation s!"value of type {v.kind} is not callable".toList)
  | none =>
    match Keyed.find? function env.functions with
    | some f => applyFunction env enter f positional named
    | none => throw (.unknownFunction function)

/-! ## Filters -/

def filters (env : Environment) : List (Text × (Text → Text)) :=
  env.filters ++ [("upper".toList, Text.upper)]

def applyFilter (env : Environment) (name : Text) (v : Value) : Run Value :=
  match (filters env).find? (·.1 == name) with
  | some (_, f) => return .text (f v.print) false
  | none => throw (.unknownFilter name)

/-! ## Other templates -/

/-- Renders the block of a name in a frame of its own. -/
def callBlock (enter : Enter) (name : Text) : Run Text := do
  let st ← get
  match Keyed.find? name st.blocks with
  | none => return []
  | some layer =>
    withFrame {} do
      modify fun st => { st with template := layer.template }
      let output ← enter layer.body
      modify fun now => { now with template := st.template }
      return output

/-- Makes a template the parent of the current one. -/
def extend (env : Environment) (v : Value) : Run Unit := do
  let st ← get
  if st.parent.isSome then
    throw (.invalidOperation "tried to extend a second time in a template".toList)
  let name ← templateName v
  if st.ancestry.contains name then
    throw (.invalidOperation ("cycle in template inheritance. ".toList ++ Value.shownText name ++
      " was referenced more than once".toList))
  match env.template? name with
  | none =>
    throw (.templateNotFound
      ("template ".toList ++ Value.shownText name ++ " does not exist".toList))
  | some template =>
    modify fun st =>
      { st.addBlocks name template with
        ancestry := name :: st.ancestry, parent := some name, quiet := true }

/-- Renders another template over the current frames. -/
def embed (env : Environment) (enter : Enter) (mayBeMissing : Bool) (v : Value) : Run Text := do
  let name ← templateName v
  match env.template? name with
  | none =>
    if mayBeMissing then return []
    else throw (.templateNotFound
      ("tried to include non-existing template ".toList ++ Value.shownText name))
  | some template =>
    let outer ← get
    modify fun st =>
      State.addBlocks name template { st.withScope none with
        template := name, blocks := [], depth := st.depth + 10 }
    if (← get).isTooDeep then throw .tooDeep
    let output ← fun st => (enter template.body st).mapError (Fault.inside name)
    modify fun st =>
      { st.withScope outer.scope with
        template := outer.template, blocks := outer.blocks, ancestry := outer.ancestry
        depth := outer.depth }
    return output

/-- Takes definitions out of another template. -/
def fetch (env : Environment) (enter : Enter) (v : Value) (names : List (Text × Text)) :
    Run Unit := do
  let values ← withQuiet true <| withFrame {} do
    let _ ← embed env enter false v
    let st ← get
    return names.map fun (name, given) => (given, (st.lookup? name).getD .undefined)
  for (given, v) in values.reverse do
    modify (State.assign given v)

/-! ## Evaluation -/

mutual

def evaluate (env : Environment) (enter : Enter) (e : Expression) : Run Value :=
  match e with
  | .literal _ value => return .ofData value
  | .name _ id => return ((← get).lookup? id).getD .undefined
  | .field whole key => do
    let v ← evaluate env enter whole
    if v.isUndefined then located whole.line (throw .undefinedValue)
    return v.field key
  | .item whole key => do
    let v ← evaluate env enter whole
    let k ← evaluate env enter key
    if v.isUndefined then located key.line (throw .undefinedValue)
    return v.item k
  | .map _ entries => return .map (Keyed.ofList (← evaluateEntries env enter entries))
  | .less a b => do
    let x ← evaluate env enter a
    let y ← evaluate env enter b
    return .bool (x.less y)
  | .filter value name => do
    let v ← evaluate env enter value
    located value.line (applyFilter env name v)
  | .call line function positional named => do
    let arguments ← evaluateAll env enter positional
    let keyed := Keyed.ofList (← evaluateNamed env enter named)
    located (Expression.lastNamedLine (Expression.lastLine line positional) named)
      (callFunction env enter function arguments keyed)

def evaluateAll (env : Environment) (enter : Enter) : List Expression → Run (List Value)
  | [] => return []
  | e :: rest => do
    let v ← evaluate env enter e
    return v :: (← evaluateAll env enter rest)

def evaluateNamed (env : Environment) (enter : Enter) :
    List (Text × Expression) → Run (List (Text × Value))
  | [] => return []
  | (key, e) :: rest => do
    let v ← evaluate env enter e
    return (key, v) :: (← evaluateNamed env enter rest)

def evaluateEntries (env : Environment) (enter : Enter) :
    List (Expression × Expression) → Run (List (Text × Value))
  | [] => return []
  | (key, e) :: rest => do
    let k ← evaluate env enter key
    let v ← evaluate env enter e
    return (k.print, v) :: (← evaluateEntries env enter rest)

end

mutual

def execute (env : Environment) (enter : Enter) (s : Statement) : Run Text :=
  match s with
  | .text s => emit s
  | .output value => do
    let v ← evaluate env enter value
    emit (v.output env.escapes)
  | .choice condition yes no => do
    let v ← evaluate env enter condition
    if v.isTrue then executeAll env enter yes else executeAll env enter no
  | .loop target items body otherwise => do
    let v ← evaluate env enter items
    match v.items? with
    | none =>
      located items.line (throw (.invalidOperation s!"{v.kind} is not iterable".toList))
    | some [] => executeAll env enter otherwise
    | some found =>
      located items.line <| withFrame {} do
        let outputs ← found.mapM fun item => do
          modify (State.assign target item)
          executeAll env enter body
        return outputs.flatten
  | .assign target value => do
    let v ← evaluate env enter value
    modify (State.assign target v)
    return []
  | .capture target body => do
    let output ← withQuiet false (executeAll env enter body)
    modify (State.assign target (.text output env.escapes))
    return []
  | .block name _ => do
    let st ← get
    if st.parent.isNone && !st.quiet then callBlock enter name else return []
  | .parent line name => do
    let v ← evaluate env enter name
    located line (extend env v)
    return []
  | .embed line name mayBeMissing => do
    let v ← evaluate env enter name
    located line (embed env enter mayBeMissing v)
  | .fetch line name names => do
    let v ← evaluate env enter name
    located line (fetch env enter v names)
    return []
  | .define name parameters body => do
    define name parameters body
    return []

def executeAll (env : Environment) (enter : Enter) : List Statement → Run Text
  | [] => return []
  | s :: rest => do
    let first ← execute env enter s
    return first ++ (← executeAll env enter rest)

end

/-- Runs code in which other code may be entered so many times inside one another. What it extends
is rendered after it. -/
def run (env : Environment) : Nat → List Statement → Run Text
  | 0, _ => throw .tooDeep
  | n + 1, body => do
    let outer ← get
    set { outer with parent := none }
    let output ← executeAll env (run env n) body
    let output ← match (← get).parent.bind fun name => (env.template? name).map (name, ·) with
      | none => pure output
      | some (name, template) => do
        modify fun st => { st with parent := none, quiet := outer.quiet, template := name }
        return output ++ (← run env n template.body)
    modify fun st => { st with parent := outer.parent }
    return output

/-- The bound on code that enters other code. -/
def maxEntered : Nat := 2000

end ComponentTags.Template
