import ComponentTags.Text.Blank
import ComponentTags.Text.Digits
import ComponentTags.Text.Reader
import ComponentTags.Data.Decimal

/-!
# Lexemes of templates

A template is text with code in it: `{{ … }}` for output, `{% … %}` for statements, `{# … #}` for
comments. A sign next to a delimiter controls the blank space outside: `-` removes it, `+` keeps it.
Inside code, a closing delimiter counts only where no bracket is open.
-/

namespace ComponentTags.Template

inductive Lexeme where
  | text (s : Text)
  | openOutput
  | closeOutput
  | openStatement
  | closeStatement
  | name (s : Text)
  | string (s : Text)
  | integer (n : Nat)
  | float (x : Float)
  | mark (c : Char)
deriving Inhabited

namespace Lexeme

open Reader (exactly satisfy takeWhile takeWhile1 fail accepts)

/-! ## Code -/

def isCodeSpace (c : Char) : Bool :=
  c == ' ' || c == '\t' || c == '\n' || c == '\r' || c.toNat == 12

def isNameStart (c : Char) : Bool :=
  c.isAlpha || c == '_'

def isNameChar (c : Char) : Bool :=
  c.isAlphanum || c == '_'

def isMark (c : Char) : Bool :=
  ".,:~|=<>()[]\x7b\x7d+-*/%".toList.contains c

/-- The character written after a backslash. -/
def escaped : Reader Char Char := do
  if ← accepts (exactly ['\'']) then return '\''
  fun s => Text.readEscape s

/-- The inside of a literal, up to its delimiter. -/
def literalChar (delimiter : Char) : Reader Char Char := do
  if ← accepts (exactly ['\\']) then escaped else satisfy (· != delimiter)

def stringLiteral (delimiter : Char) : Reader Char Lexeme := do
  exactly [delimiter]
  let s ← Reader.many (literalChar delimiter)
  exactly [delimiter]
  return .string s

def number : Reader Char Lexeme := do
  let whole ← takeWhile1 Char.isDigit
  let fraction ← optional do
    exactly ['.']
    takeWhile1 Char.isDigit
  match fraction with
  | none => return .integer (Text.natural 10 whole)
  | some fraction =>
    return .float (Decimal.ofDecimal (Text.natural 10 (whole ++ fraction)) (-fraction.length))

def word : Reader Char Lexeme := do
  let first ← satisfy isNameStart
  return .name (first :: (← takeWhile isNameChar))

/-- Something inside code that is no closing delimiter. -/
def inCode : Reader Char Lexeme :=
  stringLiteral '"' <|> stringLiteral '\'' <|> number <|> word <|>
    (do return .mark (← satisfy isMark))

/-- How the number of open brackets changes. -/
def nesting : Lexeme → Int
  | mark c => if "([\x7b".toList.contains c then 1 else if ")]\x7d".toList.contains c then -1 else 0
  | _ => 0

/-! ## Text -/

/-- The blank space control next to a delimiter. -/
inductive Control where
  | default
  | remove
  | keep
deriving DecidableEq

def Control.ofChar (c : Char) : Control :=
  if c = '-' then remove else if c = '+' then keep else default

/-- A sign after an opening delimiter. -/
def control : Reader Char Control := do
  match ← optional (satisfy fun c => c == '-' || c == '+') with
  | none => return .default
  | some c => return .ofChar c

/-- What a place in the text opens. -/
inductive Opening where
  | output
  | statement
  | comment

def opening : Reader Char Opening := do
  exactly ['\x7b']
  let c ← Reader.item
  if c = '\x7b' then return .output
  else if c = '%' then return .statement
  else if c = '#' then return .comment
  else fail

/-- The text in front of the next opening, if there is one. -/
def cutAtOpening : Text → Text × Option (Opening × Text)
  | [] => ([], none)
  | c :: s =>
    match opening (c :: s) with
    | some (kind, rest) => ([], some (kind, rest))
    | none =>
      let (before, found) := cutAtOpening s
      (c :: before, found)

/-- The text in front of the first `stop`, and what follows it. -/
def cutAt? (stop : Text) : Text → Option (Text × Text)
  | [] => if stop.isEmpty then some ([], []) else none
  | c :: s =>
    match Text.afterBeginning? stop (c :: s) with
    | some rest => some ([], rest)
    | none => (cutAt? stop s).map fun (before, rest) => (c :: before, rest)

/-- A tag of one word after its opening, up to the sign in front of its end. -/
def wordTag (w : String) : Reader Char Control := do
  let _ ← takeWhile isCodeSpace
  exactly w.toList
  let _ ← takeWhile isCodeSpace
  let sign ← control
  exactly ['%', '\x7d']
  return sign

/-- The text of a raw block after its opening tag: the controls of its closing tag and the rest. -/
def cutRaw : Text → Option (Text × Control × Control × Text)
  | [] => none
  | c :: s =>
    let here := do
      exactly ['\x7b', '%']
      let before ← control
      return (before, ← wordTag "endraw")
    match here (c :: s) with
    | some ((before, after), rest) => some ([], before, after, rest)
    | none => (cutRaw s).map fun (raw, found) => (c :: raw, found)

def trimEnd (s : Text) : Text :=
  Text.dropEndWhile Text.isBlank s

def trimStart (s : Text) : Text :=
  s.dropWhile Text.isBlank

/-! ## Templates -/

/-- Where the reading of a template stands. -/
inductive Mode where
  /-- In text. Blank space in front is dropped after a control sign. -/
  | text (dropBlank : Bool)
  /-- In code with so many open brackets. -/
  | output (brackets : Int)
  | statement (brackets : Int)

/-- A step: the lexemes found, the mode after it and what is left to read. -/
abbrev Step := Option (List Lexeme × Mode × Text)

def asText (s : Text) : List Lexeme :=
  if s.isEmpty then [] else [text s]

def textStep (dropBlank : Bool) (s : Text) : Step :=
  let s := if dropBlank then trimStart s else s
  let (before, found) := cutAtOpening s
  match found with
  | none => some (asText before, .text false, [])
  | some (kind, rest) =>
    match control rest with
    | none => none
    | some (sign, rest) =>
      let before := asText (if sign = .remove then trimEnd before else before)
      match kind with
      | .output => some (before ++ [openOutput], .output 0, rest)
      | .comment =>
        (cutAt? ['#', '\x7d'] rest).map fun (inside, rest) =>
          (before, .text (inside.getLast? == some '-'), rest)
      | .statement =>
        match wordTag "raw" rest with
        | none => some (before ++ [openStatement], .statement 0, rest)
        | some (start, rest) =>
          (cutRaw rest).map fun (raw, stop, after, rest) =>
            let raw := if start = .remove then trimStart raw else raw
            let raw := if stop = .remove then trimEnd raw else raw
            (before ++ [text raw], .text (after = .remove), rest)

/-- Reads the delimiter that ends code, with its control sign. -/
def closing (delimiter : Text) : Reader Char Control := do
  let sign ← control
  exactly delimiter
  return sign

def codeStep (close : Lexeme) (delimiter : Text) (mode : Int → Mode) (brackets : Int) (s : Text) :
    Step :=
  let closed := if brackets = 0 then closing delimiter s else none
  match closed with
  | some (sign, rest) => some ([close], .text (sign = .remove), rest)
  | none => (inCode s).map fun (lexeme, rest) => ([lexeme], mode (brackets + lexeme.nesting), rest)

def step : Mode → Text → Step
  | .text dropBlank, s => textStep dropBlank s
  | .output brackets, s => codeStep closeOutput ['\x7d', '\x7d'] .output brackets s
  | .statement brackets, s => codeStep closeStatement ['%', '\x7d'] .statement brackets s

/-- Code may be preceded by space. -/
def skip : Mode → Text → Text
  | .text _, s => s
  | _, s => s.dropWhile isCodeSpace

/-- The lexemes of the rest of a template of `lines` lines, each with its line. Every step takes at
least one character, so the length of the text bounds their number. -/
def lexemes (lines : Nat) : Nat → Mode → Text → Option (List (Lexeme × Nat))
  | 0, _, _ => some []
  | n + 1, mode, s =>
    match skip mode s with
    | [] => some []
    | s => do
      let (found, mode, rest) ← step mode s
      let line := lines - Text.lineBreaks s
      return found.map (·, line) ++ (← lexemes lines n mode rest)

end Lexeme

def lexemes? (s : Text) : Option (List (Lexeme × Nat)) :=
  Lexeme.lexemes (Text.lineBreaks s + 1) s.length (.text false) s

end ComponentTags.Template
