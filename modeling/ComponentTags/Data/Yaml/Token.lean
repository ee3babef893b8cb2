import ComponentTags.Text.Digits

/-!
# Tokens of YAML

The marks and scalars of a document, and how each is read from the characters. Line breaks are
brought to line feeds first. Characters carry their places, since the meaning of most marks depends
on their column.
-/

namespace ComponentTags.Yaml

inductive Token where
  | version (major minor : Nat)
  | tagHandle (handle beginning : Text)
  | documentStart
  | documentEnd
  | blockSequence
  | blockMapping
  | blockEnd
  | flowSequence
  | flowSequenceEnd
  | flowMapping
  | flowMappingEnd
  | blockEntry
  | flowEntry
  | key
  | value
  | aliasOf (name : Text)
  | anchor (name : Text)
  | tag (handle suffix : Text)
  | scalar (text : Text) (isPlain : Bool)
deriving DecidableEq, Repr

structure Place where
  line : Nat
  column : Nat
  index : Nat
deriving DecidableEq, Repr

/-- Characters with their places. -/
abbrev Marked := List (Char × Place)

/-! ## Characters -/

def isBreak (c : Char) : Bool :=
  c == '\n' || c.toNat == 0x2028 || c.toNat == 0x2029

def isSpace (c : Char) : Bool :=
  c == ' ' || c == '\t'

/-- Whether a word ends at this character. -/
def isGap (c : Char) : Bool :=
  isSpace c || isBreak c

def isWordChar (c : Char) : Bool :=
  c.isAlphanum || c == '_' || c == '-'

/-- The characters that may stand in a document. -/
def isAllowed (c : Char) : Bool :=
  let n := c.toNat
  n == 9 || n == 10 || n == 13 || (0x20 ≤ n && n ≤ 0x7E) || n == 0x85 ||
    (0xA0 ≤ n && n ≤ 0xFFFD && n != 0xFEFF) || 0x10000 ≤ n

/-- Writes every line break of one line feed's meaning as a line feed. -/
def unifyBreaks : Text → Text
  | [] => []
  | ['\r'] => ['\n']
  | '\r' :: '\n' :: s => '\n' :: unifyBreaks s
  | '\r' :: c :: s => '\n' :: unifyBreaks (c :: s)
  | c :: s => (if c.toNat = 0x85 then '\n' else c) :: unifyBreaks s

def marked (place : Place) : Text → Marked
  | [] => []
  | c :: s =>
    let next : Place :=
      if isBreak c then ⟨place.line + 1, 0, place.index + 1⟩
      else { place with column := place.column + 1, index := place.index + 1 }
    (c, place) :: marked next s

namespace Marked

def char? (s : Marked) (n : Nat) : Option Char :=
  (s[n]?).map Prod.fst

/-- Whether a gap or the end of the text is `n` characters ahead. -/
def gapAt (s : Marked) (n : Nat) : Bool :=
  (s.char? n).all isGap

/-- The characters in front that are in a class, and the rest. -/
def cut (p : Char → Bool) (s : Marked) : Text × Marked :=
  ((List.takeWhile (p ·.1) s).map Prod.fst, List.dropWhile (p ·.1) s)

/-- Whether a line begins here with a mark of three characters that stands alone. -/
def isDocumentMark (word : String) (s : Marked) : Bool :=
  s.head?.any (·.2.column = 0) && List.isPrefixOf word.toList ((s.take 3).map Prod.fst) && s.gapAt 3

def atDocumentMark (s : Marked) : Bool :=
  s.isDocumentMark "---" || s.isDocumentMark "..."

end Marked

/-! ## Blank space inside scalars -/

/-- The blank space after a word of a scalar: spaces on the line, or a first line break, which an
escape may have taken away, and more of them. -/
inductive Gap where
  | spaces (s : Text)
  | breaks (first : Option Char) (more : Text)

def Gap.empty : Gap := spaces []

def Gap.isBroken : Gap → Bool
  | spaces _ => false
  | breaks .. => true

/-- Adds a space or a line break. Spaces after a line break do not count. -/
def Gap.add (c : Char) : Gap → Gap
  | spaces s => if isBreak c then breaks (some c) [] else spaces (s ++ [c])
  | breaks first more => if isBreak c then breaks first (more ++ [c]) else breaks first more

/-- What remains of blank space between two words: a single line break becomes a space. -/
def Gap.text : Gap → Text
  | spaces s => s
  | breaks (some '\n') [] => [' ']
  | breaks (some '\n') more => more
  | breaks (some c) more => c :: more
  | breaks none more => more

/-! ## Plain scalars -/

def isFlowMark (c : Char) : Bool :=
  c == ',' || c == '[' || c == ']' || c == '\x7b' || c == '\x7d'

/-- The scalar, whether a line break follows it, and the rest. -/
abbrev PlainResult := Option (Text × Bool × Marked)

/-- Reads a plain scalar. `indent` is the least column of its later lines. -/
def readPlain (inFlow : Bool) (indent : Nat) (found : Text) (gap : Gap) : Marked → PlainResult
  | [] => some (found, gap.isBroken, [])
  | (c, place) :: rest =>
    let here := (c, place) :: rest
    let stop : PlainResult := some (found, gap.isBroken, here)
    if isGap c then
      if c = '\t' && gap.isBroken && place.column < indent then none
      else readPlain inFlow indent found (gap.add c) rest
    else
      let afterGap := match gap with
        | .spaces [] => found.isEmpty
        | _ => true
      if !found.isEmpty && afterGap && !inFlow && place.column < indent then stop
      else if afterGap && (c = '#' || Marked.atDocumentMark here) then stop
      else if c = ':' && Marked.gapAt here 1 then stop
      else if inFlow && c = ':' &&
          (Marked.char? here 1).any (fun d => isFlowMark d || d == '?') then
        none
      else if inFlow && isFlowMark c then stop
      else readPlain inFlow indent (found ++ gap.text ++ [c]) .empty rest

/-! ## Quoted scalars -/

/-- The character that a letter after a backslash stands for. -/
def escaped? (c : Char) : Option Char :=
  match c with
  | '0' => some (Char.ofNat 0)
  | 'a' => some (Char.ofNat 7)
  | 'b' => some (Char.ofNat 8)
  | 't' => some '\t'
  | '\t' => some '\t'
  | 'n' => some '\n'
  | 'v' => some (Char.ofNat 11)
  | 'f' => some (Char.ofNat 12)
  | 'r' => some '\r'
  | 'e' => some (Char.ofNat 27)
  | ' ' => some ' '
  | '"' => some '"'
  | '/' => some '/'
  | '\\' => some '\\'
  | 'N' => some (Char.ofNat 0x85)
  | '_' => some (Char.ofNat 0xA0)
  | 'L' => some (Char.ofNat 0x2028)
  | 'P' => some (Char.ofNat 0x2029)
  | _ => none

/-- The number of digits after a letter for characters by number. -/
def digitCount? (c : Char) : Option Nat :=
  match c with
  | 'x' => some 2
  | 'u' => some 4
  | 'U' => some 8
  | _ => none

def charOf? (n : Nat) : Option Char :=
  if n < 0xD800 ∨ (0xDFFF < n ∧ n ≤ 0x10FFFF) then some (Char.ofNat n) else none

/-- Where the reading of a quoted scalar stands: in the text, or inside a character's number. -/
inductive QuotedMode where
  | text
  | number (digits value : Nat)

/-- Reads a quoted scalar after its opening quote. -/
def readQuoted (single : Bool) (mode : QuotedMode) (found : Text) (gap : Gap) :
    Marked → Option (Text × Marked)
  | [] => none
  | (c, place) :: rest =>
    match mode with
    | .number digits value =>
      match Text.hexValue? c with
      | none => none
      | some d =>
        let value := value * 16 + d
        if digits ≤ 1 then
          match charOf? value with
          | none => none
          | some e => readQuoted single .text (found ++ [e]) .empty rest
        else readQuoted single (.number (digits - 1) value) found .empty rest
    | .text =>
      if isGap c then readQuoted single .text found (gap.add c) rest
      else if Marked.atDocumentMark ((c, place) :: rest) then none
      else
        let found := found ++ gap.text
        if single then
          if c = '\'' then
            match rest with
            | ('\'', _) :: rest => readQuoted single .text (found ++ ['\'']) .empty rest
            | _ => some (found, rest)
          else readQuoted single .text (found ++ [c]) .empty rest
        else if c = '"' then some (found, rest)
        else if c = '\\' then
          match rest with
          | [] => none
          | (e, _) :: rest =>
            if isBreak e then readQuoted single .text found (.breaks none []) rest
            else
              match escaped? e, digitCount? e with
              | some d, _ => readQuoted single .text (found ++ [d]) .empty rest
              | none, some n => readQuoted single (.number n 0) found .empty rest
              | none, none => none
        else readQuoted single .text (found ++ [c]) .empty rest

/-! ## Block scalars -/

/-- Whether the line breaks at the end of a block scalar are dropped or kept. By default one is
kept. -/
inductive Chomping where
  | clip
  | strip
  | keep
deriving DecidableEq

structure BlockHeader where
  chomping : Chomping := .clip
  /-- The number of columns by which the lines are set off, if it is given. -/
  increment : Option Nat := none

def chomping? (c : Char) : Option Chomping :=
  if c = '-' then some .strip else if c = '+' then some .keep else none

/-- A digit that gives an indentation. A zero is none. -/
def increment? (c : Char) : Option (Option Nat) :=
  if c.isDigit then some (if c = '0' then none else some (c.toNat - 48)) else none

def readIncrement (header : BlockHeader) (s : Marked) : Option (BlockHeader × Marked) :=
  match s with
  | (c, _) :: rest =>
    match increment? c with
    | some (some n) => some ({ header with increment := some n }, rest)
    | some none => none
    | none => some (header, s)
  | [] => some (header, s)

def readChomping (header : BlockHeader) (s : Marked) : BlockHeader × Marked :=
  match s with
  | (c, _) :: rest =>
    match chomping? c with
    | some chomping => ({ header with chomping }, rest)
    | none => (header, s)
  | [] => (header, s)

/-- The rest of a line that may hold a comment, up to and with its end. -/
def endLine (s : Marked) : Option Marked :=
  let (_, s) := Marked.cut isSpace s
  let s := if Marked.char? s 0 = some '#' then (Marked.cut (!isBreak ·) s).2 else s
  match s with
  | [] => some []
  | (c, _) :: rest => if isBreak c then some rest else none

/-- Reads the indicators of a block scalar and the rest of their line. -/
def readBlockHeader (s : Marked) : Option (BlockHeader × Marked) := do
  let (header, rest) := readChomping {} s
  let (header, rest) ← readIncrement header rest
  let (header, rest) :=
    if header.chomping = .clip then readChomping header rest else (header, rest)
  return (header, ← endLine rest)

/-- Reads blank lines and the indentation after them. Without an indentation all spaces count.
Returns the line breaks, the widest indentation and the rest. -/
def readBlankLines (indent : Option Nat) (widest : Nat) (breaks : Text) :
    Marked → Option (Text × Nat × Marked)
  | [] => some (breaks, widest, [])
  | (c, place) :: rest =>
    let isInside := indent.all (place.column < ·)
    if c = ' ' && isInside then readBlankLines indent widest breaks rest
    else
      let widest := max widest place.column
      if c = '\t' && isInside then none
      else if isBreak c then readBlankLines indent widest (breaks ++ [c]) rest
      else some (breaks, widest, (c, place) :: rest)

/-- The text of a block scalar in the making. -/
structure BlockText where
  found : Text := []
  /-- The line break after the last line. -/
  lineEnd : Text := []
  /-- The breaks of the blank lines after it. -/
  blanks : Text := []
  /-- Whether the last line begins with blank space. -/
  isSetOff : Bool := false

/-- Adds a line. In folded text a line break between two lines that begin with a word becomes a
space, or nothing before blank lines. -/
def BlockText.addLine (t : BlockText) (literal : Bool) (line : Text) (lineEnd blanks : Text) :
    BlockText :=
  let isSetOff := line.head?.any isSpace
  let joint :=
    if !literal && t.lineEnd = ['\n'] && !t.isSetOff && !isSetOff then
      if t.blanks.isEmpty then [' '] else []
    else t.lineEnd
  { found := t.found ++ joint ++ t.blanks ++ line, lineEnd, blanks, isSetOff }

/-- Reads the lines that begin at the indentation, of which there are at most as many as there are
characters. -/
def readBlockLines (literal : Bool) (indent : Nat) : Nat → BlockText → Marked →
    Option (BlockText × Marked)
  | 0, t, s => some (t, s)
  | n + 1, t, s =>
    match s with
    | [] => some (t, s)
    | (_, place) :: _ =>
      if place.column = indent then do
        let (line, rest) := Marked.cut (!isBreak ·) s
        let lineEnd := (Marked.char? rest 0).toList
        let (blanks, _, rest) ← readBlankLines (some indent) 0 [] (rest.drop 1)
        readBlockLines literal indent n (t.addLine literal line lineEnd blanks) rest
      else some (t, s)

/-- Reads a block scalar after its indicator. `outer` is the indentation around it, if any. -/
def readBlock (literal : Bool) (outer : Option Nat) (s : Marked) : Option (Text × Marked) := do
  let (header, s) ← readBlockHeader s
  let given := header.increment.map fun n => outer.getD 0 + n
  let (blanks, widest, s) ← readBlankLines given 0 [] s
  let indent := given.getD (max widest (max (outer.elim 0 (· + 1)) 1))
  let (t, s) ← readBlockLines literal indent s.length { blanks } s
  let tail := match header.chomping with
    | .strip => []
    | .clip => t.lineEnd
    | .keep => t.lineEnd ++ t.blanks
  return (t.found ++ tail, s)

/-! ## Names and tags -/

/-- The name of an anchor or alias after its mark. -/
def readAnchor (s : Marked) : Option (Text × Marked) :=
  let (name, rest) := Marked.cut isWordChar s
  let isEnd (c : Char) : Bool := isGap c || "?:,]\x7d%@\x60".toList.contains c
  if !name.isEmpty && (Marked.char? rest 0).all isEnd then some (name, rest) else none

def isUriChar (verbatim : Bool) (c : Char) : Bool :=
  isWordChar c || ";/?:@&=+$.!~*'()%".toList.contains c ||
    (verbatim && ",[]".toList.contains c)

/-- A tag after its exclamation mark: its handle and what follows the handle. -/
def readTag (inFlow : Bool) (s : Marked) : Option ((Text × Text) × Marked) := do
  let (found, rest) ← match s with
    | ('<', _) :: rest =>
      let (uri, rest) := Marked.cut (isUriChar true) rest
      match rest with
      | ('>', _) :: rest => if uri.isEmpty then none else some (([], uri), rest)
      | _ => none
    | _ =>
      let (word, rest) := Marked.cut isWordChar s
      match rest with
      | ('!', _) :: rest =>
        let (suffix, rest) := Marked.cut (isUriChar false) rest
        if suffix.isEmpty then none else some ((['!'] ++ word ++ ['!'], suffix), rest)
      | _ =>
        let (more, rest) := Marked.cut (isUriChar false) rest
        let suffix := word ++ more
        some (if suffix.isEmpty then ([], ['!']) else (['!'], suffix), rest)
  if Marked.gapAt rest 0 || (inFlow && Marked.char? rest 0 = some ',') then some (found, rest)
  else none

/-! ## Directives -/

/-- A directive after its mark, with the rest of its line. -/
def readDirective (s : Marked) : Option (Token × Marked) := do
  let (name, rest) := Marked.cut isWordChar s
  if name.isEmpty || !Marked.gapAt rest 0 then none
  let (_, rest) := Marked.cut isSpace rest
  let (token, rest) ← match String.ofList name with
    | "YAML" => do
      let (major, rest) := Marked.cut Char.isDigit rest
      if Marked.char? rest 0 ≠ some '.' then none
      let (minor, rest) := Marked.cut Char.isDigit (rest.drop 1)
      some (Token.version (← Text.natural? 10 major) (← Text.natural? 10 minor), rest)
    | "TAG" => do
      if Marked.char? rest 0 ≠ some '!' then none
      let (word, rest) := Marked.cut isWordChar (rest.drop 1)
      let closed := Marked.char? rest 0 = some '!'
      if !closed && !word.isEmpty then none
      let handle := '!' :: word ++ if closed then ['!'] else []
      let rest := if closed then rest.drop 1 else rest
      if !(Marked.char? rest 0).any isSpace then none
      let (_, rest) := Marked.cut isSpace rest
      let (beginning, rest) := Marked.cut (isUriChar true) rest
      if beginning.isEmpty || !Marked.gapAt rest 0 then none
      some (.tagHandle handle beginning, rest)
    | _ => none
  return (token, ← endLine rest)

end ComponentTags.Yaml
