import ComponentTags.Token

/-!
# Scanner

A scanner hands out the tokens of a source one at a time. One token can be pushed back. The scanner
is a value, so saving its state is keeping it and rewinding is going on with the kept one.
-/

namespace ComponentTags

structure Scanner where
  /-- The text from which no token has been taken yet. -/
  ahead : Text
  /-- The offset at which `ahead` begins. -/
  position : Nat
  /-- The offset of the next token. -/
  offset : Nat
  /-- The line at `offset`. -/
  line : Nat
  pushedBack : Option Token
deriving DecidableEq, Repr

namespace Scanner

def ofSource (source : Text) : Scanner :=
  { ahead := source, position := 0, offset := 0, line := 1, pushedBack := none }

/-- The scanner just after `token`. -/
def passed (s : Scanner) (token : Token) : Scanner :=
  { s with offset := token.stop, line := token.line + token.newlines, pushedBack := none }

/-- The next token and the scanner after it. At the end this is an empty last token, again and
again. -/
def scan (s : Scanner) : Token × Scanner :=
  match s.pushedBack, s.ahead with
  | some token, _ => (token, s.passed token)
  | none, [] =>
    let token := { kind := .endOfSource, text := [], start := s.position, line := s.line }
    (token, s.passed token)
  | none, c :: rest =>
    let token := Token.first s.position s.line c rest
    (token, { s.passed token with ahead := Token.afterFirst c rest, position := token.stop })

/-- Makes `token` the next one to be handed out. -/
def unread (s : Scanner) (token : Token) : Scanner :=
  { s with offset := token.start, line := token.line, pushedBack := some token }

/-- The next token, left in place. -/
def peek (s : Scanner) : Token × Scanner :=
  let (token, after) := s.scan
  (token, after.unread token)

end Scanner

end ComponentTags
