import ComponentTags.Text.Basic

/-!
# Command line

What the arguments of a call mean. Options may stand before and after the command; each counts at
most once on either side, and the later side wins. Everything after `--` is a plain word.
-/

namespace ComponentTags

inductive Command where
  | render (name : Text) (layout data : Option Text)
  | expand (file : Text)
  | files (name : Text)
deriving DecidableEq, Repr

structure CommandLine where
  /-- The folder of the templates. -/
  path : Option Text := none
  command : Option Command := none
deriving DecidableEq, Repr

namespace CommandLine

/-- What ends the reading of arguments. -/
inductive Stop where
  | usage
  | version
  | help
deriving DecidableEq, Repr

/-- What an option or flag is for. -/
inductive Setting where
  | path
  | layout
  | data
  | verbose
  | noColor
  | version
  | help
deriving DecidableEq, Repr

/-- Whether a value belongs to the setting. -/
def Setting.takesValue : Setting → Bool
  | path => true
  | layout => true
  | data => true
  | _ => false

/-- Whether the value is a path, which cannot be empty. -/
def Setting.isPath : Setting → Bool
  | path => true
  | data => true
  | _ => false

/-- The settings of one side of the command. -/
structure Names where
  long : List (String × Setting)
  short : List (Char × Setting)

def global : Names where
  long := [("path", .path), ("verbose", .verbose), ("no-color", .noColor), ("help", .help)]
  short := [('p', .path), ('v', .verbose), ('h', .help)]

def top : Names where
  long := ("version", .version) :: global.long
  short := ('V', .version) :: global.short

def ofRender : Names where
  long := ("layout", .layout) :: ("data", .data) :: global.long
  short := global.short

def Names.long? (names : Names) (word : Text) : Option Setting :=
  (names.long.find? (·.1.toList = word)).map Prod.snd

def Names.short? (names : Names) (c : Char) : Option Setting :=
  (names.short.find? (·.1 = c)).map Prod.snd

/-- What has been read on one side: the values of settings and the words. -/
structure Side where
  values : List (Setting × Text) := []
  words : List Text := []

def Side.value? (side : Side) (setting : Setting) : Option Text :=
  (side.values.find? (·.1 = setting)).map Prod.snd

/-- Adds a setting. Asking for help or the version ends the reading. -/
def Side.add (side : Side) (setting : Setting) (value : Text) : Except Stop Side :=
  match setting with
  | .help => .error .help
  | .version => .error .version
  | _ =>
    if side.values.any (·.1 = setting) ∨ (setting.isPath ∧ value = []) then .error .usage
    else .ok { side with values := (setting, value) :: side.values }

def looksLikeOption (word : Text) : Bool :=
  match word with
  | '-' :: _ :: _ => true
  | _ => false

/-- Reads the letters after a dash. The last one may be followed by its value, and the result is a
setting whose value is still to come. -/
def readLetters (names : Names) (side : Side) : Text → Except Stop (Side × Option Setting)
  | [] => .ok (side, none)
  | c :: rest =>
    match names.short? c with
    | none => .error .usage
    | some setting =>
      if setting.takesValue then
        match rest with
        | [] => .ok (side, some setting)
        | '=' :: value => (side.add setting value).map (·, none)
        | value => (side.add setting value).map (·, none)
      else do readLetters names (← side.add setting []) rest

/-- The name of a long option, and its value if it is written behind an equals sign. -/
def splitLong (word : Text) : Text × Option Text :=
  match word.dropWhile (· ≠ '=') with
  | [] => (word, none)
  | _ :: value => (word.takeWhile (· ≠ '='), some value)

def readLong (names : Names) (side : Side) (word : Text) : Except Stop (Side × Option Setting) :=
  let (name, value) := splitLong word
  match names.long? name, value with
  | none, _ => .error .usage
  | some setting, none =>
    if setting.takesValue then .ok (side, some setting) else (side.add setting []).map (·, none)
  | some setting, some value =>
    if setting.takesValue then (side.add setting value).map (·, none) else .error .usage

/-- Reads arguments up to the first word if `stopAtWord`, or to the end. `waiting` is a setting
whose value comes next. -/
def read (names : Names) (stopAtWord : Bool) (side : Side) (waiting : Option Setting) :
    List Text → Except Stop (Side × List Text)
  | [] => if waiting.isSome then .error .usage else .ok (side, [])
  | argument :: rest =>
    match waiting with
    | some setting =>
      if looksLikeOption argument then .error .usage
      else do read names stopAtWord (← side.add setting argument) none rest
    | none =>
      match argument with
      | ['-', '-'] =>
        if stopAtWord ∧ rest ≠ [] then .error .usage
        else .ok ({ side with words := side.words ++ rest }, [])
      | '-' :: '-' :: word => do
        let (side, waiting) ← readLong names side word
        read names stopAtWord side waiting rest
      | '-' :: c :: letters => do
        let (side, waiting) ← readLetters names side (c :: letters)
        read names stopAtWord side waiting rest
      | word =>
        if stopAtWord then .ok (side, word :: rest)
        else read names stopAtWord { side with words := side.words ++ [word] } none rest

/-- Reads what follows the name of a command that takes one word. -/
def readCommand (names : Names) (path : Option Text) (arguments : List Text)
    (make : Side → Text → Except Stop Command) : Except Stop CommandLine := do
  let (side, _) ← read names false {} none arguments
  match side.words with
  | [word] => return { path := (side.value? .path).or path, command := ← make side word }
  | _ => throw .usage

/-- The meaning of arguments. -/
def parse (arguments : List Text) : Except Stop CommandLine := do
  let (side, rest) ← read top true {} none arguments
  let path := side.value? .path
  match rest with
  | [] => return { path }
  | command :: rest =>
    match String.ofList command with
    | "render" =>
      readCommand ofRender path rest fun side name =>
        return .render name (side.value? .layout) (side.value? .data)
    | "rewrite" =>
      readCommand global path rest fun _ file =>
        if file.isEmpty then throw .usage else return .expand file
    | "files" => readCommand global path rest fun _ name => return .files name
    | "help" => throw .help
    | _ => throw .usage

end CommandLine

end ComponentTags
