import ComponentTags.Span

/-!
# Tokens

A source is cut into tokens that tile it: runs of white space, runs of name characters, the marks
that matter for component tags, and single characters for all else. A `<` opens a tag only before a
capital letter, directly or with one `/` between.
-/

namespace ComponentTags

namespace Token

inductive Kind where
  | endOfSource
  | whitespace
  | identifier
  /-- A `<` directly before a capital letter. -/
  | tagStart
  /-- A `</` directly before a capital letter. -/
  | closingTagStart
  /-- The two characters `/>`. -/
  | selfClosing
  | leftAngle
  | rightAngle
  | slash
  | assign
  | singleQuote
  | doubleQuote
  | backtick
  /-- A single quote directly after a backslash, both in one token. -/
  | escapedSingleQuote
  /-- A double quote directly after a backslash, both in one token. -/
  | escapedDoubleQuote
  | backslash
  | other
deriving DecidableEq, Repr

namespace Kind

def name : Kind → String
  | endOfSource => "EOF"
  | whitespace => "WhiteSpace"
  | identifier => "Identifier"
  | tagStart => "TagStart"
  | closingTagStart => "ClosingTagStart"
  | selfClosing => "TagSelfClosing"
  | leftAngle => "LeftAngleBracket"
  | rightAngle => "RightAngleBracket"
  | slash => "Slash"
  | assign => "Assign"
  | singleQuote => "SingleQuote"
  | doubleQuote => "DoubleQuote"
  | backtick => "TripleQuote"
  | escapedSingleQuote => "EscSingleQuote"
  | escapedDoubleQuote => "EscDoubleQuote"
  | backslash => "BackSlash"
  | other => "Other"

/-- Whether a token of this kind can delimit an attribute value. -/
def isQuote : Kind → Bool
  | singleQuote | doubleQuote => true
  | _ => false

end Kind

/-- White space between the parts of a tag. -/
def isSpace (c : Char) : Bool :=
  c = ' ' || c = '\t' || c = '\r' || c = '\n'

/-- The characters of tag and attribute names. -/
def isNameChar (c : Char) : Bool :=
  c.isAlphanum || c = '-'

/-- Whether the text begins with the capital letter of a tag name. -/
def opensName : Text → Bool
  | c :: _ => c.isUpper
  | [] => false

/-- The kind of the token that begins with `c` before `rest`, and how many characters of `rest`
belong to it. -/
def Kind.lex (c : Char) (rest : Text) : Kind × Nat :=
  if isSpace c then (.whitespace, (rest.takeWhile isSpace).length)
  else if isNameChar c then (.identifier, (rest.takeWhile isNameChar).length)
  else
    match c, rest with
    | '<', '/' :: after =>
      if opensName after then (.closingTagStart, 1) else (.leftAngle, 0)
    | '<', rest => if opensName rest then (.tagStart, 0) else (.leftAngle, 0)
    | '/', '>' :: _ => (.selfClosing, 1)
    | '/', _ => (.slash, 0)
    | '\\', '\'' :: _ => (.escapedSingleQuote, 1)
    | '\\', '"' :: _ => (.escapedDoubleQuote, 1)
    | '\\', _ => (.backslash, 0)
    | '>', _ => (.rightAngle, 0)
    | '=', _ => (.assign, 0)
    | '\'', _ => (.singleQuote, 0)
    | '"', _ => (.doubleQuote, 0)
    | '\x60', _ => (.backtick, 0)
    | _, _ => (.other, 0)

end Token

/-- A piece of a source with its place: the byte offset and the line on which it begins. -/
structure Token where
  kind : Token.Kind
  text : Text
  start : Nat
  line : Nat
deriving DecidableEq, Repr

namespace Token

def stop (t : Token) : Nat :=
  t.start + Text.byteSize t.text

def span (t : Token) : Span :=
  ⟨t.start, t.stop⟩

def isWhitespace (t : Token) : Bool :=
  t.kind == .whitespace

/-- Whether the token can be the name of a tag. -/
def isTagName (t : Token) : Bool :=
  t.kind == .identifier && opensName t.text

/-- The number of line breaks inside the token. -/
def newlines (t : Token) : Nat :=
  Text.lineBreaks t.text

/-- The token that begins with `c` before `rest`. -/
def first (start line : Nat) (c : Char) (rest : Text) : Token :=
  let (kind, more) := Kind.lex c rest
  { kind, text := c :: rest.take more, start, line }

/-- What follows the token that begins with `c` before `rest`. -/
def afterFirst (c : Char) (rest : Text) : Text :=
  rest.drop (Kind.lex c rest).2

theorem text_first_append (start line : Nat) (c : Char) (rest : Text) :
    (first start line c rest).text ++ afterFirst c rest = c :: rest := by
  simp [first, afterFirst]

theorem length_afterFirst_le (c : Char) (rest : Text) :
    (afterFirst c rest).length ≤ rest.length := by
  simp [afterFirst]

/-- The tokens of a text whose first character has the given offset and line. -/
def listFrom (start line : Nat) : Text → List Token
  | [] => []
  | c :: rest =>
    let token := first start line c rest
    token :: listFrom token.stop (line + token.newlines) (afterFirst c rest)
termination_by s => s.length
decreasing_by
  have := length_afterFirst_le c rest
  simp only [List.length_cons]
  omega

/-- The tokens of a source, in order. -/
def list (source : Text) : List Token :=
  listFrom 0 1 source

/-- The tokens tile the text. -/
theorem flatMap_text_listFrom (start line : Nat) (s : Text) :
    (listFrom start line s).flatMap text = s := by
  fun_induction listFrom start line s with
  | case1 => rfl
  | case2 start line c rest token ih =>
    rw [List.flatMap_cons, ih]
    exact text_first_append start line c rest

end Token

end ComponentTags
