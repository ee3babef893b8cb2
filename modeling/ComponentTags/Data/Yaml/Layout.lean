import ComponentTags.Data.Yaml.Token

/-!
# Layout of YAML

Cuts a document into tokens. Indentation opens and closes block collections, and a simple key is
known as one only when the colon after it is read; its mark is then put in front of the token that
it began at. A simple key ends on its line, and within 1024 characters.
-/

namespace ComponentTags.Yaml

/-- A place where a simple key may have begun. -/
structure SimpleKey where
  /-- The number of tokens in front of it. -/
  number : Nat
  /-- Whether nothing but a key can stand there. -/
  isRequired : Bool
  place : Place

structure Layout where
  /-- The tokens so far, the last one first. -/
  tokens : List Token := []
  /-- The columns of the open block collections, the innermost first. -/
  indents : List Nat := []
  /-- The simple keys that are possible, one for each open flow collection and one outside. -/
  keys : List (Option SimpleKey) := [none]
  /-- Whether a simple key may begin here. -/
  allowsKey : Bool := true

namespace Layout

def inFlow (st : Layout) : Bool :=
  1 < st.keys.length

def indent (st : Layout) : Option Nat :=
  st.indents.head?

def add (token : Token) (st : Layout) : Layout :=
  { st with tokens := token :: st.tokens }

/-- Puts a token in front of the one with a number. -/
def addAt (number : Nat) (token : Token) (st : Layout) : Layout :=
  let later := st.tokens.length - number
  { st with tokens := st.tokens.take later ++ token :: st.tokens.drop later }

def allowKey (allowed : Bool) (st : Layout) : Layout :=
  { st with allowsKey := allowed }

/-! ## Simple keys -/

def isStale (place : Place) (key : SimpleKey) : Bool :=
  key.place.line < place.line || key.place.index + 1024 < place.index

/-- Forgets keys that can no longer be one. It is an error if one was required. -/
def dropStaleKeys (place : Place) (st : Layout) : Option Layout :=
  if st.keys.any (·.any fun key => isStale place key && key.isRequired) then none
  else some { st with keys := st.keys.map (·.filter (!isStale place ·)) }

/-- Forgets the innermost key. -/
def dropKey (st : Layout) : Option Layout :=
  match st.keys with
  | [] => some st
  | key :: outer =>
    if key.any SimpleKey.isRequired then none else some { st with keys := none :: outer }

/-- Notes that a simple key may begin here. -/
def noteKey (place : Place) (st : Layout) : Option Layout :=
  if st.allowsKey then do
    let isRequired := !st.inFlow && st.indent == some place.column
    let st ← st.dropKey
    return { st with keys := some ⟨st.tokens.length, isRequired, place⟩ :: st.keys.tail }
  else some st

/-! ## Indentation -/

/-- Opens a block collection if the column is deeper than the current one. -/
def openBlock (column number : Nat) (token : Token) (st : Layout) : Layout :=
  if !st.inFlow && st.indent.all (· < column) then
    { st.addAt number token with indents := column :: st.indents }
  else st

/-- Closes the block collections that are deeper than `column`, or all of them. -/
def closeBlocks (column : Option Nat) (st : Layout) : Layout :=
  if st.inFlow then st
  else
    let closed := st.indents.takeWhile fun indent => column.all (· < indent)
    { st with
      tokens := List.replicate closed.length .blockEnd ++ st.tokens
      indents := st.indents.drop closed.length }

/-! ## Between tokens -/

/-- Skips blank space and comments. A simple key may begin after a line break. -/
def skip (inFlow allowsKey inComment : Bool) : Marked → Bool × Marked
  | [] => (allowsKey, [])
  | (c, place) :: rest =>
    if isBreak c then skip inFlow (allowsKey || !inFlow) false rest
    else if inComment then skip inFlow allowsKey true rest
    else if c = ' ' || (c = '\t' && (inFlow || !allowsKey)) then skip inFlow allowsKey false rest
    else if c = '#' then skip inFlow allowsKey true rest
    else (allowsKey, (c, place) :: rest)

/-! ## Tokens -/

/-- A step: what is known after it and what is left to read. -/
abbrev Step := Option (Layout × Marked)

/-- A mark of the document as a whole. It closes everything. -/
def documentMark (token : Token) (rest : Marked) (st : Layout) : Step := do
  let st ← (st.closeBlocks none).dropKey
  return ((st.allowKey false).add token, rest)

def openFlow (token : Token) (place : Place) (rest : Marked) (st : Layout) : Step := do
  let st ← st.noteKey place
  return (({ st with keys := none :: st.keys }.allowKey true).add token, rest)

def closeFlow (token : Token) (rest : Marked) (st : Layout) : Step := do
  let st ← st.dropKey
  let keys := if st.inFlow then st.keys.tail else st.keys
  return (({ st with keys }.allowKey false).add token, rest)

def flowEntry (rest : Marked) (st : Layout) : Step := do
  let st ← st.dropKey
  return ((st.allowKey true).add .flowEntry, rest)

/-- Opens a block collection at a mark that a simple key could also begin at. -/
def openBlockAt (place : Place) (token : Token) (st : Layout) : Option Layout :=
  if st.inFlow then some st
  else if st.allowsKey then some (st.openBlock place.column st.tokens.length token)
  else none

def blockEntry (place : Place) (rest : Marked) (st : Layout) : Step := do
  let st ← (← st.openBlockAt place .blockSequence).dropKey
  return ((st.allowKey true).add .blockEntry, rest)

def key (place : Place) (rest : Marked) (st : Layout) : Step := do
  let st ← (← st.openBlockAt place .blockMapping).dropKey
  return ((st.allowKey !st.inFlow).add .key, rest)

/-- A colon. It makes a key of the possible simple key, if there is one. -/
def value (place : Place) (rest : Marked) (st : Layout) : Step :=
  match st.keys with
  | some key :: outer =>
    let st := st.addAt key.number .key
    let st := st.openBlock key.place.column key.number .blockMapping
    some (({ st with keys := none :: outer }.allowKey false).add .value, rest)
  | _ => do
    let st ← st.openBlockAt place .blockMapping
    return ((st.allowKey !st.inFlow).add .value, rest)

/-- A token that a simple key may begin with. -/
def word (place : Place) (found : Option (Token × Marked)) (st : Layout) : Step := do
  let st ← st.noteKey place
  let (token, rest) ← found
  return ((st.allowKey false).add token, rest)

def blockScalar (literal : Bool) (rest : Marked) (st : Layout) : Step := do
  let st ← st.dropKey
  let (text, rest) ← readBlock literal st.indent rest
  return ((st.allowKey true).add (.scalar text false), rest)

def plainScalar (place : Place) (s : Marked) (st : Layout) : Step := do
  let st ← st.noteKey place
  let (text, isBroken, rest) ← readPlain st.inFlow (st.indent.elim 0 (· + 1)) [] .empty s
  return ((st.allowKey isBroken).add (.scalar text true), rest)

/-- Whether a plain scalar can begin with the character. -/
def beginsPlain (inFlow : Bool) (s : Marked) (c : Char) : Bool :=
  if c = '-' then !(Marked.char? s 1).any isSpace
  else if c = '?' || c = ':' then !inFlow && !Marked.gapAt s 1
  else !isGap c && !",[]\x7b\x7d#&*!|>'\"%@\x60".toList.contains c

/-- Reads the token at `c`. -/
def token (c : Char) (place : Place) (rest : Marked) (st : Layout) : Step :=
  let s := (c, place) :: rest
  let endsWord := Marked.gapAt s 1
  let marksKey := st.inFlow || endsWord
  if place.column = 0 && c = '%' then do
    let st ← (st.closeBlocks none).dropKey
    let (token, rest) ← readDirective rest
    return ((st.allowKey false).add token, rest)
  else if Marked.isDocumentMark "---" s then st.documentMark .documentStart (s.drop 3)
  else if Marked.isDocumentMark "..." s then st.documentMark .documentEnd (s.drop 3)
  else if c = '[' then st.openFlow .flowSequence place rest
  else if c = '\x7b' then st.openFlow .flowMapping place rest
  else if c = ']' then st.closeFlow .flowSequenceEnd rest
  else if c = '\x7d' then st.closeFlow .flowMappingEnd rest
  else if c = ',' then st.flowEntry rest
  else if c = '-' && endsWord then st.blockEntry place rest
  else if c = '?' && marksKey then st.key place rest
  else if c = ':' && marksKey then st.value place rest
  else if c = '*' then
    st.word place ((readAnchor rest).map fun (name, rest) => (.aliasOf name, rest))
  else if c = '&' then
    st.word place ((readAnchor rest).map fun (name, rest) => (.anchor name, rest))
  else if c = '!' then
    st.word place ((readTag st.inFlow rest).map fun ((handle, suffix), rest) =>
      (.tag handle suffix, rest))
  else if c = '|' && !st.inFlow then st.blockScalar true rest
  else if c = '>' && !st.inFlow then st.blockScalar false rest
  else if c = '\'' || c = '"' then
    st.word place ((readQuoted (c = '\'') .text [] .empty rest).map fun (text, rest) =>
      (.scalar text false, rest))
  else if beginsPlain st.inFlow s c then st.plainScalar place s
  else none

/-- Reads to the end. Every token takes at least one character, so the length of the text bounds
their number. -/
def readAll : Nat → Layout → Marked → Option Layout
  | 0, st, _ => some st
  | n + 1, st, s => do
    let (allowsKey, s) := skip st.inFlow st.allowsKey false s
    let st := st.allowKey allowsKey
    match s with
    | [] => (st.closeBlocks none).dropKey
    | (c, place) :: rest => do
      let st ← st.dropStaleKeys place
      let (st, rest) ← (st.closeBlocks (some place.column)).token c place rest
      readAll n st rest

end Layout

/-- The tokens of a document. -/
def tokens? (s : Text) : Option (List Token) := do
  if !s.all isAllowed then none
  let s := marked ⟨0, 0, 0⟩ (unifyBreaks s)
  let st ← Layout.readAll (s.length + 1) {} s
  return st.tokens.reverse

end ComponentTags.Yaml
