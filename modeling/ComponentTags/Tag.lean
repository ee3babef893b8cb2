import ComponentTags.Span
import ComponentTags.Text.Keyed
import ComponentTags.Text.LetterCase

/-!
# Component tags

A tag has a name that starts with a capital letter, one of three forms and, unless it is an end tag,
attributes. Names are compared without regard to ASCII case.
-/

namespace ComponentTags

/-- The values of a tag's attributes by name, as they stand between the quotes. -/
abbrev Attributes := List (Text × Text)

namespace Tag

inductive Kind where
  /-- Written `<Name …>`. -/
  | opening
  /-- Written `</Name>`. -/
  | closing
  /-- Written `<Name … />`. -/
  | selfClosing
deriving DecidableEq, Repr

end Tag

structure Tag where
  name : Text
  kind : Tag.Kind
  attributes : Attributes
  /-- From the `<` to the end of the closing `>` or `/>`. -/
  span : Span
  line : Nat
deriving DecidableEq, Repr

namespace Tag

def isOpening (t : Tag) : Bool :=
  t.kind == .opening

def isClosing (t : Tag) : Bool :=
  t.kind == .closing

def isSelfClosing (t : Tag) : Bool :=
  t.kind == .selfClosing

def sameName (s t : Tag) : Bool :=
  Text.eqIgnoringCase s.name t.name

end Tag

end ComponentTags
