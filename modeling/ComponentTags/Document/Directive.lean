import ComponentTags.Text.Blank
import ComponentTags.Text.LetterCase
import ComponentTags.Text.Reader

/-!
# Layout directives and references

A template names its layout in one of its first lines, either in a comment or in a statement of the
template language. Other templates are referred to by statements that load them. Both are found by
their form alone, wherever they stand in the text.
-/

namespace ComponentTags

inductive Directive where
  /-- Written `{# extends "base" #}`. -/
  | comment (layout : Text)
  /-- Written `{% extends "base" %}`. -/
  | statement (layout : Text)
deriving DecidableEq, Repr

namespace Directive

/-- The layout as the author wrote it. -/
def layout : Directive → Text
  | comment layout => layout
  | statement layout => layout

/-- Only so many lines are searched. -/
def searchedLines : Nat := 10

def blanks : Reader Char Unit := do
  let _ ← Reader.takeWhile Text.isBlank

def blanks1 : Reader Char Unit := do
  let _ ← Reader.takeWhile1 Text.isBlank

/-- A white space control sign, which may be missing. -/
def sign : Reader Char Unit := do
  let _ ← optional (Reader.satisfy fun c => c == '-' || c == '+')

def word (w : String) : Reader Char Unit :=
  Reader.exactly w.toList

def isQuote (c : Char) : Bool :=
  c == '"' || c == '\''

/-- A nonempty name between quotes, none of which are inside. -/
def quotedName (isDelimiter : Char → Bool) : Reader Char Text := do
  let _ ← Reader.satisfy isDelimiter
  let name ← Reader.takeWhile1 (!isDelimiter ·)
  let _ ← Reader.satisfy isDelimiter
  return Text.trim name

def commentForm : Reader Char Directive := do
  word "\x7b#"
  sign
  blanks
  word "extend"
  let _ ← optional (word "s")
  blanks
  let name ← quotedName (· == '"')
  blanks
  sign
  word "#\x7d"
  return .comment name

def statementForm : Reader Char Directive := do
  word "\x7b%"
  sign
  blanks
  word "extends"
  blanks1
  let name ← quotedName isQuote
  blanks
  sign
  word "%\x7d"
  return .statement name

/-- The directive of a line. A comment counts before a statement. -/
def ofLine? (line : Text) : Option Directive :=
  (Reader.first? commentForm line).or (Reader.first? statementForm line)

/-- The layout directive of a template. -/
def find? (source : Text) : Option Directive :=
  ((Text.split '\n' source).take searchedLines).findSome? ofLine?

end Directive

/-! ## References -/

def referenceForm : Reader Char Text := do
  Directive.word "\x7b%"
  Directive.sign
  Directive.blanks
  Directive.word "include" <|> Directive.word "import" <|> Directive.word "from" <|>
    Directive.word "extends"
  Directive.blanks1
  Directive.quotedName Directive.isQuote

/-- Keeps the first of all names that agree in lower case. `seen` are lower case names. -/
def distinctNames (seen : List Text) : List Text → List Text
  | [] => []
  | name :: rest =>
    let key := Text.lower name
    if seen.contains key then distinctNames seen rest else name :: distinctNames (key :: seen) rest

/-- The names of the templates that a source loads, in the order of their first appearance. -/
def references (source : Text) : List Text :=
  distinctNames [] (Reader.all referenceForm source)

end ComponentTags
