import ComponentTags.Text.Basic

/-!
# Configuration

The settings as an author writes them, each with its default.
-/

namespace ComponentTags

structure Config where
  extension : Text := ".tmpl".toList
  sharedFolder : Text := "shared".toList
  componentsFolder : Text := "components".toList
  debug : Bool := false
  autoescape : Bool := true
  /-- Glob patterns of the template files that are never collected. -/
  exclude : List Text := []
deriving DecidableEq, Repr

end ComponentTags
