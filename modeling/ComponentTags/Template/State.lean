import ComponentTags.Template
import ComponentTags.Template.Fault
import ComponentTags.Template.Value

/-!
# States of rendering

Names are looked up in frames from the innermost on. Definitions made in one frame share a scope:
the values that the names in them had when they were made, and all later assignments of that frame,
so that definitions may use one another in any order.
-/

namespace ComponentTags.Template

/-- A template that is ready to be rendered with the entries of a value. -/
structure Loaded where
  source : Text
  render : Value → Except Fault Text

/-- A function of a text and a value, with named arguments. It can look up templates. -/
abbrev Function :=
  (Text → Except Fault Loaded) → Text → Value → List (Text × Value) → Except Fault Value

/-- The templates of a unit, and what they are rendered with besides data. -/
structure Environment where
  /-- In the order of their names. -/
  templates : List (Text × Template) := []
  /-- Whether output is escaped for HTML. -/
  escapes : Bool := true
  /-- In the order of their names. -/
  functions : List (Text × Function) := []
  filters : List (Text × (Text → Text)) := []

def Environment.template? (env : Environment) (name : Text) : Option Template :=
  Keyed.find? name env.templates

/-- The values that a frame starts with. -/
inductive Base where
  | nothing
  | values (whole : Value)
  | scope (number : Nat)

structure Frame where
  assigned : List (Text × Value) := []
  base : Base := .nothing
  /-- The scope of the definitions made in this frame. -/
  scope : Option Nat := none

/-- A block and the template that it stands in. -/
structure Layer where
  template : Text
  body : List Statement

structure State where
  /-- The innermost frame comes first. -/
  frames : List Frame
  /-- Scopes by their numbers. -/
  scopes : List (List (Text × Value)) := []
  /-- The nesting that is not in the frames. -/
  depth : Nat := 0
  /-- The template that is being rendered. -/
  template : Text
  /-- The blocks that count, by name. -/
  blocks : List (Text × Layer) := []
  /-- The templates that have been extended, from the first one on. -/
  ancestry : List Text := []
  /-- The template that the current one extends. -/
  parent : Option Text := none
  /-- Whether output is dropped. -/
  quiet : Bool := false

abbrev Run := StateT State (Except Fault)

namespace State

def maxDepth : Nat := 500

def isTooDeep (st : State) : Bool :=
  maxDepth < st.depth + st.frames.length

def scopeEntries (st : State) (number : Nat) : List (Text × Value) :=
  (st.scopes[number]?).getD []

/-- The value that a frame gives to a name. -/
def inFrame? (st : State) (name : Text) (frame : Frame) : Option Value :=
  (Keyed.find? name frame.assigned).or
    (let found := match frame.base with
      | .nothing => .undefined
      | .values whole => whole.field name
      | .scope number => (Keyed.find? name (st.scopeEntries number)).getD .undefined
    if found.isUndefined then none else some found)

def lookup? (st : State) (name : Text) : Option Value :=
  st.frames.findSome? (st.inFrame? name)

def setScope (st : State) (number : Nat) (entries : List (Text × Value)) : State :=
  { st with scopes := st.scopes.set number entries }

/-- Assigns a name in the innermost frame. -/
def assign (name : Text) (value : Value) (st : State) : State :=
  match st.frames with
  | [] => st
  | frame :: outer =>
    let st := match frame.scope with
      | none => st
      | some number =>
        st.setScope number (Keyed.insert name value (st.scopeEntries number))
    { st with
      frames := { frame with assigned := Keyed.insert name value frame.assigned } :: outer }

/-- The scope of the innermost frame, which is made if there is none. -/
def openScope (st : State) : Nat × State :=
  match st.frames with
  | [] => (0, st)
  | frame :: outer =>
    match frame.scope with
    | some number => (number, st)
    | none =>
      let number := st.scopes.length
      (number,
        { st with
          scopes := st.scopes ++ [[]], frames := { frame with scope := some number } :: outer })

/-- Keeps the current value of a name in a scope, unless it is there. -/
def enclose (number : Nat) (st : State) (name : Text) : State :=
  let entries := st.scopeEntries number
  match Keyed.find? name entries with
  | some _ => st
  | none => st.setScope number (Keyed.insert name ((st.lookup? name).getD .undefined) entries)

/-- The innermost frame with another scope. -/
def withScope (scope : Option Nat) (st : State) : State :=
  match st.frames with
  | [] => st
  | frame :: outer => { st with frames := { frame with scope := scope } :: outer }

def scope (st : State) : Option Nat :=
  st.frames.head?.bind Frame.scope

/-- Adds the blocks of a template. Blocks that are there come first. -/
def addBlocks (name : Text) (template : Template) (st : State) : State :=
  { st with
    blocks := template.blocks.foldl (fun blocks (block, body) =>
      match Keyed.find? block blocks with
      | some _ => blocks
      | none => Keyed.insert block ⟨name, body⟩ blocks) st.blocks }

/-- The state in which a template starts with the given values. -/
def initial (name : Text) (template : Template) (values : Value) : State :=
  addBlocks name template
    { frames := [{ base := .values values }], template := name, ancestry := [name] }

end State

end ComponentTags.Template
