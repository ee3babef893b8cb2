import ComponentTags.Data.Yaml.Node
import ComponentTags.Data.Yaml.Scalar

/-!
# Data in YAML

A text holds at most one document, with collections nested 128 deep at most. An alias stands for the
node of its anchor, and keys are the texts of scalars. Of equal keys the last one counts.
-/

namespace ComponentTags.Data

/-- How deep collections are nested. -/
def depth : Data → Nat
  | list items => depthOfItems items + 1
  | map entries => depthOfEntries entries + 1
  | _ => 0
where
  depthOfItems : List Data → Nat
    | [] => 0
    | d :: rest => max (depth d) (depthOfItems rest)
  depthOfEntries : List (Text × Data) → Nat
    | [] => 0
    | (_, d) :: rest => max (depth d) (depthOfEntries rest)

end ComponentTags.Data

namespace ComponentTags.Yaml

/-- What an alias can stand for: the data of a node, and its text if it is a scalar. Both are
missing while the node is not complete. -/
structure Anchored where
  data : Option Data := none
  text : Option Text := none

abbrev Anchors := List (Text × Anchored)

def maxDepth : Nat := 128

def Properties.bind (p : Properties) (value : Anchored) (anchors : Anchors) : Anchors :=
  match p.anchor with
  | none => anchors
  | some name => (name, value) :: anchors

def anchored? (name : Text) (anchors : Anchors) : Option Anchored :=
  (anchors.find? (·.1 == name)).map Prod.snd

/-- Whether a tag has a meaning of its own for an application. -/
def isLocal (tag : Option Text) : Bool :=
  tag.any fun t => t.head? == some '!'

def scalarData? (p : Properties) (text : Text) (isPlain : Bool) : Option Data :=
  match p.tag with
  | some tag => if isLocal (some tag) then none else tagged? tag text
  | none => if isPlain then plain? text else some (.string text)

/-- The text of a node as a key. -/
def keyText? (anchors : Anchors) : Node → Option (Text × Anchors)
  | .aliasOf name => (anchored? name anchors).bind fun found => found.text.map (·, anchors)
  | .scalar p text isPlain =>
    some (text, p.bind ⟨scalarData? p text isPlain, some text⟩ anchors)
  | _ => none

mutual

/-- The data of a node with room for collections `room` deep, and the anchors after it. -/
def toData? (room : Nat) (anchors : Anchors) : Node → Option (Data × Anchors)
  | .aliasOf name => do
    let data ← (← anchored? name anchors).data
    if data.depth ≤ room then some (data, anchors) else none
  | .scalar p text isPlain => do
    let data ← scalarData? p text isPlain
    return (data, p.bind ⟨some data, some text⟩ anchors)
  | .sequence p items => do
    if isLocal p.tag || room = 0 then none
    let (items, anchors) ← itemsToData? (room - 1) (p.bind {} anchors) items
    return (.list items, p.bind ⟨some (.list items), none⟩ anchors)
  | .mapping p entries => do
    if isLocal p.tag || room = 0 then none
    let (entries, anchors) ← entriesToData? (room - 1) (p.bind {} anchors) entries
    let data := Data.map (Keyed.ofList entries)
    return (data, p.bind ⟨some data, none⟩ anchors)

def itemsToData? (room : Nat) (anchors : Anchors) :
    List Node → Option (List Data × Anchors)
  | [] => some ([], anchors)
  | node :: rest => do
    let (data, anchors) ← toData? room anchors node
    let (others, anchors) ← itemsToData? room anchors rest
    return (data :: others, anchors)

def entriesToData? (room : Nat) (anchors : Anchors) :
    List (Node × Node) → Option (List (Text × Data) × Anchors)
  | [] => some ([], anchors)
  | (key, value) :: rest => do
    let (text, anchors) ← keyText? anchors key
    let (data, anchors) ← toData? room anchors value
    let (others, anchors) ← entriesToData? room anchors rest
    return ((text, data) :: others, anchors)

end

/-- The data of a text. A text without a document is null. -/
def read? (s : Text) : Option Data := do
  match ← Node.only? maxDepth (← tokens? s) with
  | none => some .null
  | some node => (toData? maxDepth [] node).map Prod.fst

end ComponentTags.Yaml
