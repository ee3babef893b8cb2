import ComponentTags.CommandLine
import ComponentTags.Data.File
import ComponentTags.Template.Language

/-!
# Running commands

What a call of the program writes and which exit code it ends with. Faulty arguments and errors end
with 2, a call without a command with 1.
-/

namespace ComponentTags.CommandLine

structure Outcome where
  code : Nat := 0
  output : Text := []
  /-- The lines of the error output. -/
  complaints : List Text := []
deriving DecidableEq, Repr

namespace Outcome

def ofError (e : Error) : Outcome where
  code := 2
  complaints := [e.code.toList, e.message.toList]

def ofResult : Except Error Text → Outcome
  | .ok output => { output }
  | .error e => ofError e

end Outcome

/-- How the program and its version are called. -/
def version : Text :=
  "tagplate_cli 0.3.0\n".toList

def usage : Text :=
  "Usage: tagplate [--path PATH] [--verbose] [--no-color] render|rewrite|files ...\n".toList

def kindLabel : Source.Kind → String
  | .layout => "layout"
  | .entry => "entry"
  | .sibling => "partial"
  | .extra => "extra"
  | .referenced => "referenced"
  | .shared => "shared"

/-- A path below the root if it is one, with slashes only. -/
def relative (root path : Text) : Text :=
  Text.substitute '\\' '/' ((Path.relativeTo? root path).getD path)

def padRight (width : Nat) (s : Text) : Text :=
  s ++ List.replicate (width - s.length) ' '

/-- The line of a file in the list of a document. -/
def fileLine (root : Text) (source : Source) : Text :=
  "  ".toList ++ padRight 28 source.name ++ " [".toList ++ (kindLabel source.kind).toList ++
    "] ".toList ++ source.path.elim [] (relative root) ++ ['\n']

def listing (root : Text) (document : Document) : Text :=
  "Entry: ".toList ++ document.entry ++ ['\n'] ++ document.sources.flatMap (fileLine root) ++
    '\n' :: Text.ofNat document.sources.length ++ " file(s)\n".toList

def runRender (files : FileSystem) (engine : Engine) (name : Text) (layout data : Option Text) :
    Except Error Text := do
  let data ← match data with
    | none => .ok (.map [])
    | some path => Data.load files path
  (engine.render files { layout, name } data).1

/-- Runs a command with the templates below `root`. -/
def runCommand (files : FileSystem) (root : Text) (debugVariable : Option Text)
    (command : Command) : Outcome :=
  match Engine.fromConfig files root debugVariable with
  | .error e => .ofError e
  | .ok engine =>
    match command with
    | .render name layout data => .ofResult (runRender files engine name layout data)
    | .files name => .ofResult ((engine.document files name).map (listing root))
    | .expand file =>
      match files.read file with
      | .ok source => .ofResult (engine.expandSource source)
      | .error fault =>
        { code := 2
          complaints :=
            ["error: could not read \x60".toList ++ file ++ "\x60: ".toList ++
              fault.message.toList] }

/-- Runs the program. Without a path the templates are those of the working folder. -/
def run (files : FileSystem) (debugVariable : Option Text) (arguments : List Text) : Outcome :=
  match parse arguments with
  | .error .version => { output := version }
  | .error .help => { output := usage }
  | .error .usage => { code := 2, complaints := ["error: invalid arguments".toList, usage] }
  | .ok line =>
    match line.command with
    | none =>
      { code := 1
        complaints :=
          ["No subcommand specified. Run \x60tagplate --help\x60 for usage.".toList] }
    | some command =>
      runCommand files (line.path.getD files.workingFolder) debugVariable command

end ComponentTags.CommandLine
