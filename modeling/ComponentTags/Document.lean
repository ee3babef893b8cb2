import ComponentTags.Document.Directive
import ComponentTags.Text.Delimited
import ComponentTags.Text.Quoted

/-!
# Documents

A document holds the templates that are compiled together for one entry template. A layout that a
template names in a comment becomes a statement of the template language when it is compiled.
-/

namespace ComponentTags

/-- Why a source is part of its document. -/
inductive Source.Kind where
  | layout
  | entry
  /-- Another file of the entry's folder. -/
  | sibling
  /-- Asked for besides the entry. -/
  | extra
  | referenced
  | shared
deriving DecidableEq, Repr

/-- A template of a document. -/
structure Source where
  name : Text
  /-- Sources that are given as text have none. -/
  path : Option Text
  text : Text
  kind : Source.Kind
  /-- The layout that the prepared text extends by a statement of its own. -/
  injected : Option Text
deriving DecidableEq, Repr

namespace Source

/-- The name of sources that are given as text. -/
def inlineName : Text :=
  Delimited.reserved "tagplate_inline__".toList

/-- A source whose layout is injected if a comment names it. -/
def ofText (name : Text) (path : Option Text) (kind : Kind) (text : Text) : Source where
  name := name
  path := path
  text := text
  kind := kind
  injected :=
    match Directive.find? text with
    | some (.comment layout) => some layout
    | _ => none

def inline (text : Text) : Source :=
  ofText inlineName none .entry text

def directive (s : Source) : Option Directive :=
  Directive.find? s.text

/-- The text that is compiled, with the layout put in front as a statement. -/
def prepared (s : Source) : Text :=
  match s.injected with
  | some layout => Delimited.statement ("extends ".toList ++ Text.quote layout) ++ s.text
  | none => s.text

/-- The names of all templates that a text refers to, as the author wrote them. -/
def mentions (text : Text) : List Text :=
  references text ++ ((Directive.find? text).map Directive.layout).toList

end Source

structure Document where
  /-- The name of the entry template. -/
  entry : Text
  sources : List Source
deriving DecidableEq, Repr

namespace Document

def names (d : Document) : List Text :=
  d.sources.map Source.name

/-- Whether a name is among those of the document, except for the case of ASCII letters. -/
def contains (d : Document) (name : Text) : Bool :=
  d.names.any (Text.eqIgnoringCase name)

end Document

end ComponentTags
