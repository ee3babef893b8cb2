import ComponentTags.Data.Yaml.Layout
import ComponentTags.Text.Reader

/-!
# Nodes of YAML

The tree that the tokens of a document stand for, with collections nested to a bounded depth.
-/

namespace ComponentTags.Yaml

/-- What stands in front of a node. -/
structure Properties where
  anchor : Option Text := none
  tag : Option Text := none

inductive Node where
  | aliasOf (name : Text)
  | scalar (properties : Properties) (text : Text) (isPlain : Bool)
  | sequence (properties : Properties) (items : List Node)
  | mapping (properties : Properties) (entries : List (Node × Node))
deriving Inhabited

namespace Node

abbrev TokenReader := Reader Token

open Reader (fail peek? many)

def empty : Node :=
  scalar {} [] true

def one (token : Token) : TokenReader Unit := do
  let _ ← Reader.satisfy (· == token)

/-- Whether one of the tokens comes next, or the end. -/
def comesNext (tokens : List Token) : TokenReader Bool := do
  match ← peek? with
  | none => return true
  | some token => return tokens.contains token

/-- A node, unless one of the given tokens comes next. -/
def unlessNext (tokens : List Token) (r : TokenReader Node) : TokenReader Node := do
  if ← comesNext tokens then return empty else r

/-! ## Properties -/

/-- What the handles of tags stand for. -/
abbrev Handles := List (Text × Text)

def defaultHandles : Handles :=
  [("!".toList, "!".toList), ("!!".toList, "tag:yaml.org,2002:".toList)]

def anchorName : TokenReader Text := do
  match ← Reader.item with
  | .anchor name => return name
  | _ => fail

def tagName (handles : Handles) : TokenReader Text := do
  match ← Reader.item with
  | .tag [] suffix => return suffix
  | .tag handle suffix =>
    match handles.find? (·.1 == handle) with
    | some (_, beginning) => return beginning ++ suffix
    | none => fail
  | _ => fail

def isTag : Token → Bool
  | .tag .. => true
  | _ => false

/-- An anchor and a tag in any order, each of which may be missing. -/
def properties (handles : Handles) : TokenReader Properties := do
  let anchor ← optional anchorName
  let tag ← if (← peek?).any isTag then some <$> tagName handles else pure none
  let anchor ← match anchor with
    | some name => pure (some name)
    | none => optional anchorName
  return { anchor, tag }

def aliasName : TokenReader Node := do
  match ← Reader.item with
  | .aliasOf name => return .aliasOf name
  | _ => fail

/-- A scalar with properties. The tag that is a mark alone leaves it as if it had none. -/
def scalarText (properties : Properties) : TokenReader Node := do
  match ← Reader.item with
  | .scalar text isPlain =>
    let tag := properties.tag.filter (· ≠ ['!'])
    return .scalar { properties with tag } text isPlain
  | _ => fail

/-! ## Collections -/

/-- The items of a block sequence, and its end. -/
def blockSequence (block : TokenReader Node) : TokenReader (List Node) := do
  one .blockSequence
  let items ← many do
    one .blockEntry
    unlessNext [.blockEntry, .blockEnd] block
  one .blockEnd
  return items

/-- The items of a sequence that is not set off from the mapping around it. -/
def flatSequence (block : TokenReader Node) : TokenReader (List Node) := do
  let first ← do one .blockEntry; unlessNext [.blockEntry, .key, .value, .blockEnd] block
  let others ← many do
    one .blockEntry
    unlessNext [.blockEntry, .key, .value, .blockEnd] block
  return first :: others

def blockMapping (part : TokenReader Node) : TokenReader (List (Node × Node)) := do
  one .blockMapping
  let entries ← many do
    one .key
    let key ← unlessNext [.key, .value, .blockEnd] part
    let v ←
      if ← Reader.accepts (one .value) then unlessNext [.key, .value, .blockEnd] part
      else pure empty
    return (key, v)
  one .blockEnd
  return entries

/-- The value after a key in a flow collection. -/
def flowValue (flow : TokenReader Node) (close : Token) : TokenReader Node := do
  if ← Reader.accepts (one .value) then unlessNext [.flowEntry, close] flow else return empty

/-- A mapping of one entry that stands in a flow sequence without brackets. A missing key takes the
place of the token after its mark. -/
def singlePair (flow : TokenReader Node) : TokenReader Node := do
  one .key
  let key ←
    if ← comesNext [.value, .flowEntry, .flowSequenceEnd] then
      let _ ← Reader.item
      pure empty
    else flow
  return .mapping {} [(key, ← flowValue flow .flowSequenceEnd)]

def flowSequence (flow : TokenReader Node) : TokenReader (List Node) := do
  one .flowSequence
  let items ← Reader.sepEndBy (singlePair flow <|> flow) (one .flowEntry)
  one .flowSequenceEnd
  return items

def flowEntry (flow : TokenReader Node) : TokenReader (Node × Node) := do
  if ← Reader.accepts (one .key) then
    let key ← unlessNext [.value, .flowEntry, .flowMappingEnd] flow
    return (key, ← flowValue flow .flowMappingEnd)
  else
    let key ← flow
    return (key, empty)

def flowMapping (flow : TokenReader Node) : TokenReader (List (Node × Node)) := do
  one .flowMapping
  let entries ← Reader.sepEndBy (flowEntry flow) (one .flowEntry)
  one .flowMappingEnd
  return entries

/-! ## Nodes -/

/-- Where a node stands, which decides how collections may be written in it. -/
inductive Position where
  | flow
  | block
  /-- In a block mapping, where a sequence need not be set off. -/
  | entry
deriving DecidableEq

/-- A node in which collections are nested at most `depth` deep. A node with properties may be
missing. -/
def read (handles : Handles) : Nat → Position → TokenReader Node
  | 0, _ => aliasName <|> (do
    let properties ← properties handles
    scalarText properties <|> absent properties)
  | depth + 1, position => aliasName <|> (do
    let properties ← properties handles
    let flat : TokenReader (List Node) :=
      if position = .entry then flatSequence (read handles depth .block) else fail
    let inBlock {α : Type} (r : TokenReader α) : TokenReader α :=
      if position = .flow then fail else r
    (.sequence properties <$> flat) <|>
      scalarText properties <|>
      (.sequence properties <$> flowSequence (read handles depth .flow)) <|>
      (.mapping properties <$> flowMapping (read handles depth .flow)) <|>
      (.sequence properties <$> inBlock (blockSequence (read handles depth .block))) <|>
      (.mapping properties <$> inBlock (blockMapping (read handles depth .entry))) <|>
      absent properties)
where
  absent (properties : Properties) : TokenReader Node :=
    if properties.anchor.isSome || properties.tag.isSome then pure (.scalar properties [] true)
    else fail

/-! ## Documents -/

/-- Directives in front of a document, with at most one version and one meaning per handle. -/
def addDirective (version : Bool) (handles : Handles) :
    List Token → Option (Handles × List Token)
  | .version major minor :: rest =>
    if version || major ≠ 1 || (minor ≠ 1 && minor ≠ 2) then none
    else addDirective true handles rest
  | .tagHandle handle beginning :: rest =>
    if handles.any (·.1 == handle) then none
    else addDirective version ((handle, beginning) :: handles) rest
  | rest => some (handles, rest)

def isDirective : Token → Bool
  | .version .. => true
  | .tagHandle .. => true
  | _ => false

/-- The root of a document, up to its end. -/
def root (handles : Handles) (depth : Nat) : TokenReader Node := do
  match ← peek? with
  | none => return empty
  | some token =>
    if isDirective token || token == .documentStart || token == .documentEnd then return empty
    else read handles depth .block

/-- A document that may begin with directives and a mark. -/
def document (depth : Nat) : TokenReader Node := fun tokens => do
  let (handles, rest) ← addDirective false [] tokens
  match rest with
  | .documentStart :: rest => root (handles ++ defaultHandles) depth rest
  | _ => if rest.length < tokens.length then none else root defaultHandles depth rest

/-- The only document of a text, if it has one. -/
def only? (depth : Nat) (tokens : List Token) : Option (Option Node) :=
  if tokens.isEmpty then some none
  else do
    let (node, rest) ← document depth tokens
    if rest.all (· == .documentEnd) then some (some node) else none

end Node

end ComponentTags.Yaml
