import ComponentTags.Data
import ComponentTags.Data.Toml.Table

/-!
# TOML documents

A document is a list of lines with headers and entries, put together into one table. Arrays and
inline tables may be nested 80 deep.
-/

namespace ComponentTags.Toml

/-! ## Keys and values -/

def isBareKeyChar (c : Char) : Bool :=
  c.isAlphanum || c == '_' || c == '-'

def space : Reader Char Unit := do
  let _ ← Reader.takeWhile isTomlSpace

def comment : Reader Char Unit := do
  Reader.exactly ['#']
  let _ ← Reader.takeWhile isStringChar

/-- Blank space between the items of an array: comments and line breaks as well. -/
def gap : Reader Char Unit := do
  let _ ← Reader.many ((do let _ ← Reader.takeWhile1 isTomlSpace) <|> newline <|> comment)

def keyPart : Reader Char Text :=
  Reader.takeWhile1 isBareKeyChar <|> basicString <|> literalString

/-- A key with its dots. -/
def key : Reader Char (List Text) := do
  let first ← keyPart
  let others ← Reader.many do
    space
    Reader.exactly ['.']
    space
    keyPart
  return first :: others

def isBareChar (c : Char) : Bool :=
  c.isAlphanum || c == '+' || c == '-' || c == '_' || c == '.' || c == ':'

/-- A word without quotes. A date goes on after one space if a time follows it. -/
def bare : Reader Char Value := do
  let word ← Reader.takeWhile1 isBareChar
  let later ← optional do
    if (Reader.run? date word).isNone then Reader.fail
    Reader.exactly [' ']
    let clock ← Reader.takeWhile1 isBareChar
    if clock.head?.any Char.isDigit then pure clock else Reader.fail
  match scalar? (match later with | some clock => word ++ ' ' :: clock | none => word) with
  | some v => pure v
  | none => Reader.fail

/-- The nesting that is still accepted. -/
def maxDepth : Nat := 80

/-- A value in which arrays and inline tables are nested at most `depth` deep. -/
def value : Nat → Reader Char Value
  | 0 => (do return .string (← string)) <|> bare
  | depth + 1 =>
    (do return .string (← string)) <|> array depth <|> inlineTable depth <|> bare
where
  array (depth : Nat) : Reader Char Value := do
    Reader.exactly ['[']
    gap
    let items ← Reader.sepEndBy (do let v ← value depth; gap; return v)
      (do Reader.exactly [',']; gap)
    Reader.exactly [']']
    return .array items
  inlineTable (depth : Nat) : Reader Char Value := do
    Reader.exactly ['\x7b']
    gap
    let entries ← Reader.sepEndBy
      (do
        let k ← key
        space
        Reader.exactly ['=']
        space
        let v ← value depth
        gap
        return (k, v))
      (do Reader.exactly [',']; gap)
    Reader.exactly ['\x7d']
    match entries.foldlM (fun table (k, v) => Entries.put v k table) [] with
    | some table => return .table (entriesToValues table)
    | none => Reader.fail

/-! ## Documents -/

inductive Line where
  | blank
  | header (path : List Text)
  | arrayHeader (path : List Text)
  | entry (path : List Text) (v : Value)

def arrayHeader : Reader Char Line := do
  Reader.exactly ['[', '[']
  space
  let path ← key
  space
  Reader.exactly [']', ']']
  return .arrayHeader path

def header : Reader Char Line := do
  Reader.exactly ['[']
  space
  let path ← key
  space
  Reader.exactly [']']
  return .header path

def entry : Reader Char Line := do
  let path ← key
  space
  Reader.exactly ['=']
  space
  return .entry path (← value maxDepth)

/-- A line without its line break. -/
def line : Reader Char Line := do
  space
  let content ← arrayHeader <|> header <|> entry <|> pure .blank
  space
  let _ ← optional comment
  return content

def lines : Reader Char (List Line) := do
  let first ← Reader.many do
    let content ← line
    newline
    return content
  return first ++ [← line]

/-- A document in the making: its entries and the path of the table that entries go into. -/
structure Document where
  root : Entries := []
  current : List Text := []

def Document.add (d : Document) : Line → Option Document
  | .blank => some d
  | .header path => do return { root := ← Entries.openTable path d.root, current := path }
  | .arrayHeader path => do return { root := ← Entries.openItem path d.root, current := path }
  | .entry path v => do
    return { d with root := ← Entries.update (Entries.put v path) d.current d.root }

/-- The entries of the table that a document denotes. A byte order mark in front is skipped. -/
def read? (s : Text) : Option (List (Text × Value)) := do
  let s := match s with
    | c :: rest => if c.toNat = 0xFEFF then rest else s
    | [] => []
  let found ← Reader.run? lines s
  let document ← found.foldlM Document.add {}
  return entriesToValues document.root

/-! ## Data -/

mutual

/-- The value as data. Floats that are no numbers have none; the error is the float's text. -/
def Value.toData : Value → Except Text Data
  | .string s => .ok (.string s)
  | .integer n => .ok (.int n)
  | .float x =>
    if x.isNaN || x.isInf then .error (Decimal.format x) else .ok (.float x)
  | .boolean b => .ok (.bool b)
  | .datetime s => .ok (.string s)
  | .array items => do return .list (← itemsToData items)
  | .table entries => do return .map (← entriesToData entries)

def itemsToData : List Value → Except Text (List Data)
  | [] => .ok []
  | v :: rest => do
    let first ← v.toData
    return first :: (← itemsToData rest)

def entriesToData : List (Text × Value) → Except Text (List (Text × Data))
  | [] => .ok []
  | (key, v) :: rest => do
    let first ← v.toData
    return (key, first) :: (← entriesToData rest)

end

end ComponentTags.Toml
