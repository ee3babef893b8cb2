import ComponentTags.Text.Keyed
import ComponentTags.Text.LetterCase

/-!
# Component registry

Component sources by lowercased name. `folder` is the part of a component's template name that
stands before its own name.
-/

namespace ComponentTags

structure Registry where
  folder : Text
  /-- Sources in the order of their names. -/
  sources : List (Text × Text) := []
deriving DecidableEq, Repr

namespace Registry

/-- Adds a component, replacing one of the same name. -/
def insert (r : Registry) (name source : Text) : Registry :=
  { r with sources := Keyed.insert (Text.lower name) source r.sources }

def source? (r : Registry) (name : Text) : Option Text :=
  Keyed.find? (Text.lower name) r.sources

def contains (r : Registry) (name : Text) : Bool :=
  (r.source? name).isSome

def size (r : Registry) : Nat :=
  r.sources.length

/-- The name of a component's template. -/
def templateName (folder name : Text) : Text :=
  folder ++ '/' :: Text.lower name

end Registry

end ComponentTags
