import ComponentTags.Config
import ComponentTags.Glob
import ComponentTags.Path
import ComponentTags.Text.Blank
import ComponentTags.Text.LetterCase

/-!
# Settings

The settings that an engine works with: the extension starts with a dot unless it is empty, folders
have no slash at their ends, and debug mode may also be switched on from outside.
-/

namespace ComponentTags

structure Options where
  extension : Text
  sharedFolder : Text
  componentsFolder : Text
  debug : Bool
  autoescape : Bool
  exclude : List Text
  /-- The paths that a pattern accepts, if it is valid. -/
  pattern? : Text → Option (Text → Bool)

namespace Options

/-- Trims the extension and adds the leading dot. -/
def normalizeExtension (extension : Text) : Text :=
  match Text.trim extension with
  | [] => []
  | '.' :: rest => '.' :: rest
  | trimmed => '.' :: trimmed

def trimFolder (folder : Text) : Text :=
  Text.stripWhile Path.isSeparator (Text.trim folder)

/-- Whether a word switches something on. -/
def isTruthy (word : Text) : Bool :=
  ["1", "true", "yes", "on"].contains (String.ofList (Text.asciiLower (Text.trim word)))

/-- Normalises settings. A truthy `debugVariable` turns debug mode on. -/
def ofConfig (debugVariable : Option Text) (config : Config)
    (pattern? : Text → Option (Text → Bool) := Glob.accepts?) : Options where
  extension := normalizeExtension config.extension
  sharedFolder := trimFolder config.sharedFolder
  componentsFolder := trimFolder config.componentsFolder
  debug := config.debug || debugVariable.any isTruthy
  autoescape := config.autoescape
  exclude := config.exclude
  pattern? := pattern?

def withExtension (extension : Text) (o : Options) : Options :=
  { o with extension := normalizeExtension extension }

/-- What the valid patterns among those to exclude accept. -/
def globs (o : Options) : List (Text → Bool) :=
  o.exclude.filterMap o.pattern?

/-- Whether a path relative to the root is excluded. -/
def isExcluded (o : Options) (path : Text) : Bool :=
  o.globs.any (· path)

end Options

end ComponentTags
