import ComponentTags.Tag

/-!
# Blocks

A block is a component tag together with the text it encloses: a self-closing tag with no body, or
a start tag, its end tag and the text between them.
-/

namespace ComponentTags

structure Block where
  name : Text
  attributes : Attributes
  /-- The text between the two tags, empty for a self-closing block. -/
  body : Text
  isSelfClosing : Bool
  /-- The span of the opening tag. -/
  head : Span
  /-- The span from the opening tag to the end of the closing one. -/
  full : Span
  line : Nat
deriving DecidableEq, Repr

namespace Block

/-- Whether an end tag closes the block. -/
def hasEnd (b : Block) : Bool :=
  !b.isSelfClosing

def ofSelfClosing (tag : Tag) : Block where
  name := tag.name
  attributes := tag.attributes
  body := []
  isSelfClosing := true
  head := tag.span
  full := tag.span
  line := tag.line

def ofPair (source : Text) (start finish : Tag) : Block where
  name := start.name
  attributes := start.attributes
  body := Text.slice start.span.stop finish.span.start source
  isSelfClosing := false
  head := start.span
  full := ⟨start.span.start, finish.span.stop⟩
  line := start.line

end Block

end ComponentTags
