import ComponentTags.Tag
import ComponentTags.Token

/-!
# Tag grammar

What tokens a tag is written with. White space may stand between all parts of a start tag and after
the `=` of an attribute, but only directly before the bracket of an end tag. A value holds an even
number of quotes of the kind that delimits it.
-/

namespace ComponentTags

namespace Tag

def Blank (tokens : List Token) : Prop :=
  ∀ t ∈ tokens, t.isWhitespace

/-- The tokens of an attribute after its name, with the white space that follows. -/
inductive WrittenValue : Text → List Token → Prop where
  | mk {before between after inner : List Token} {assign opening finish : Token} :
      Blank before → assign.kind = .assign → Blank between → opening.kind.isQuote →
      inner.countP (·.kind == opening.kind) % 2 = 0 → finish.kind = opening.kind → Blank after →
      WrittenValue (inner.flatMap Token.text)
        (before ++ assign :: (between ++ opening :: (inner ++ finish :: after)))

/-- The tokens of attributes, given by name in the order in which they are written. -/
inductive WrittenAttributes : List (Text × Text) → List Token → Prop where
  | nil : WrittenAttributes [] []
  | cons {key : Token} {value : Text} {tokens rest : List Token} {entries : List (Text × Text)} :
      key.kind = .identifier → WrittenValue value tokens → WrittenAttributes entries rest →
      WrittenAttributes ((key.text, value) :: entries) (key :: (tokens ++ rest))

/-- The two marks before a tag name: a `<` directly before it, or one set off by white space. -/
inductive OpeningMark : Token → List Token → Prop where
  | joined {mark : Token} : mark.kind = .tagStart → OpeningMark mark []
  | spaced {mark space : Token} : mark.kind = .leftAngle → space.isWhitespace →
      OpeningMark mark [space]

/-- The tokens of a tag. -/
inductive Written : Tag → List Token → Prop where
  | opening {mark name terminator : Token} {before between tokens : List Token}
      {entries : List (Text × Text)} {kind : Kind} :
      OpeningMark mark before → name.isTagName → Blank between →
      WrittenAttributes entries tokens →
      (kind = .opening ∧ terminator.kind = .rightAngle ∨
        kind = .selfClosing ∧ terminator.kind = .selfClosing) →
      Written
        { name := name.text, kind, attributes := Keyed.ofList entries
          span := ⟨mark.start, terminator.stop⟩, line := mark.line }
        (mark :: (before ++ name :: (between ++ tokens ++ [terminator])))
  | closing {mark name terminator : Token} {between : List Token} :
      mark.kind = .closingTagStart → name.isTagName → Blank between →
      terminator.kind = .rightAngle →
      Written
        { name := name.text, kind := .closing, attributes := []
          span := ⟨mark.start, terminator.stop⟩, line := mark.line }
        (mark :: name :: (between ++ [terminator]))

end Tag

end ComponentTags
