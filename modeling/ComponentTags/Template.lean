import ComponentTags.Template.Expression
import ComponentTags.Template.Lexeme

/-!
# Templates

A template is read from its lexemes. Statements, expressions and the operands of expressions each
count as one level of nesting, of which there may be 150.
-/

namespace ComponentTags

structure Template where
  source : Text
  body : List Template.Statement

namespace Template

/-- The blocks that a template brings, by name. -/
def blocks (t : Template) : List (Text × List Statement) :=
  Statement.blocksOf t.body

open Reader (satisfy fail many)

abbrev LexemeReader := Reader (Lexeme × Nat)

def take? {α : Type} (f : Lexeme → Nat → Option α) : LexemeReader α
  | [] => none
  | (lexeme, line) :: rest => (f lexeme line).map (·, rest)

def mark (c : Char) : LexemeReader Unit :=
  take? fun lexeme _ =>
    match lexeme with
    | .mark d => if c = d then some () else none
    | _ => none

def anyName : LexemeReader (Text × Nat) :=
  take? fun lexeme line =>
    match lexeme with
    | .name s => some (s, line)
    | _ => none

/-- A certain word. Returns its line. -/
def keyword (w : String) : LexemeReader Nat :=
  take? fun lexeme line =>
    match lexeme with
    | .name s => if s = w.toList then some line else none
    | _ => none

def delimiter (is : Lexeme → Bool) : LexemeReader Unit :=
  take? fun lexeme _ => if is lexeme then some () else none

def openOutput : LexemeReader Unit := delimiter (· matches .openOutput)

def closeOutput : LexemeReader Unit := delimiter (· matches .closeOutput)

def openStatement : LexemeReader Unit := delimiter (· matches .openStatement)

def closeStatement : LexemeReader Unit := delimiter (· matches .closeStatement)

/-- Names that stand for values of the language and cannot be assigned to. -/
def reserved : List String :=
  ["true", "True", "false", "False", "none", "None", "loop", "self"]

def target : LexemeReader Text := do
  let (s, _) ← anyName
  if reserved.contains (String.ofList s) then fail else return s

/-- Items between brackets with commas, one of which may follow the last item. -/
def listed {α : Type} (r : LexemeReader α) (close : Char) : LexemeReader (List α) := do
  let items ← Reader.sepEndBy r (mark ',')
  mark close
  return items

/-! ## Expressions -/

def constant? (word : Text) : Option Data :=
  match String.ofList word with
  | "true" => some (.bool true)
  | "True" => some (.bool true)
  | "false" => some (.bool false)
  | "False" => some (.bool false)
  | "none" => some .null
  | "None" => some .null
  | _ => none

def literal : LexemeReader Expression :=
  take? fun lexeme line =>
    match lexeme with
    | .name s => (constant? s).map (.literal line)
    | .string s => some (.literal line (.string s))
    | .integer n => some (.literal line (.int n))
    | .float x => some (.literal line (.float x))
    | _ => none

/-- An argument of a call, with its name if it has one. -/
def argument (inner : LexemeReader Expression) : LexemeReader (Option Text × Expression) := do
  let e ← inner
  match e with
  | .name _ id =>
    if ← Reader.accepts (mark '=') then return (some id, ← inner) else return (none, e)
  | _ => return (none, e)

/-- Sorts arguments into positional and named ones, which come last. -/
def splitArguments (arguments : List (Option Text × Expression)) :
    LexemeReader (List Expression × List (Text × Expression)) :=
  let positional := arguments.takeWhile (·.1.isNone)
  let named := arguments.dropWhile (·.1.isNone)
  if named.all (·.1.isSome) then
    pure (positional.map Prod.snd, named.filterMap fun (key, e) => key.map (·, e))
  else fail

/-- A name, or the call of a function by its name. -/
def nameOrCall (inner : LexemeReader Expression) : LexemeReader Expression := do
  let (id, line) ← anyName
  if ← Reader.accepts (mark '(') then
    let (positional, named) ← splitArguments (← listed (argument inner) ')')
    return .call line id positional named
  else return .name line id

def mapLiteral (inner : LexemeReader Expression) : LexemeReader Expression := fun s => do
  let line := (s.head?.map Prod.snd).getD 0
  let read : LexemeReader Expression := do
    mark '\x7b'
    let entries ← listed (do let key ← inner; mark ':'; return (key, ← inner)) '\x7d'
    return .map line entries
  read s

/-- What may follow an operand: a field or an item of it. -/
def access (inner : LexemeReader Expression) : LexemeReader (Expression → Expression) :=
  (do mark '.'; let (key, _) ← anyName; return (.field · key)) <|>
    (do mark '['; let key ← inner; mark ']'; return (.item · key))

def filtered : LexemeReader (Expression → Expression) := do
  mark '|'
  let (name, _) ← anyName
  let _ ← optional (do mark '('; mark ')')
  return (.filter · name)

/-- An operand. `argument` reads what is between the brackets of accesses and calls, `inside` what
is between those of the operand itself. -/
def operand (argument inside : LexemeReader Expression) : LexemeReader Expression := do
  let first ← literal <|> nameOrCall argument <|> mapLiteral inside <|>
    (do mark '('; let e ← inside; mark ')'; return e)
  let whole := (← many (access argument)).foldl (fun e f => f e) first
  return (← many filtered).foldl (fun e f => f e) whole

def comparison (argument inside : LexemeReader Expression) : LexemeReader Expression := do
  let first ← operand argument inside
  let others ← many do
    mark '<'
    operand argument inside
  return others.foldl .less first

/-- An expression with so many levels at most. -/
def expression : Nat → LexemeReader Expression
  | 0 => fail
  | 1 => fail
  | levels + 2 => comparison (expression (levels + 1)) (expression levels)

/-! ## Statements -/

def textOrOutput (levels : Nat) : LexemeReader Statement :=
  take? (fun lexeme _ =>
    match lexeme with
    | .text s => some (.text s)
    | _ => none) <|>
  (do
    openOutput
    let value ← expression levels
    closeOutput
    return .output value)

/-- Reads up to the start of a statement with one of the given words. -/
def bodyUntil (part : LexemeReader Statement) (w : String) : LexemeReader (List Statement) := do
  closeStatement
  let body ← many part
  openStatement
  let _ ← keyword w
  return body

def choiceFrom (levels : Nat) (part : LexemeReader Statement) : Nat → LexemeReader Statement
  | 0 => fail
  | n + 1 => do
    let condition ← expression levels
    closeStatement
    let yes ← many part
    openStatement
    let no ←
      (do let _ ← keyword "endif"; return []) <|>
      (do let _ ← keyword "else"; bodyUntil part "endif") <|>
      (do let _ ← keyword "elif"; return [← choiceFrom levels part n])
    return .choice condition yes no

def choice (levels : Nat) (part : LexemeReader Statement) : LexemeReader Statement := do
  let _ ← keyword "if"
  fun s => choiceFrom levels part s.length s

def loop (levels : Nat) (part : LexemeReader Statement) : LexemeReader Statement := do
  let _ ← keyword "for"
  let bound ← target
  let _ ← keyword "in"
  let items ← expression levels
  closeStatement
  let body ← many part
  openStatement
  let otherwise ←
    (do let _ ← keyword "endfor"; return []) <|>
    (do let _ ← keyword "else"; bodyUntil part "endfor")
  return .loop bound items body otherwise

def assignment (levels : Nat) (part : LexemeReader Statement) : LexemeReader Statement := do
  let _ ← keyword "set"
  let bound ← target
  if ← Reader.accepts (mark '=') then return .assign bound (← expression levels)
  else return .capture bound (← bodyUntil part "endset")

def block (part : LexemeReader Statement) : LexemeReader Statement := do
  let _ ← keyword "block"
  let (name, _) ← anyName
  let body ← bodyUntil part "endblock"
  match ← optional anyName with
  | none => return .block name body
  | some (again, _) => if again = name then return .block name body else fail

def parent (levels : Nat) : LexemeReader Statement := do
  let line ← keyword "extends"
  return .parent line (← expression levels)

def embedding (levels : Nat) : LexemeReader Statement := do
  let line ← keyword "include"
  let name ← expression levels
  let mayBeMissing ← Reader.accepts do
    let _ ← keyword "ignore"
    keyword "missing"
  return .embed line name mayBeMissing

def fetching (levels : Nat) : LexemeReader Statement := do
  let line ← keyword "from"
  let template ← expression levels
  let _ ← keyword "import"
  let names ← Reader.sepEndBy
    (do
      let name ← target
      let given ← optional do
        let _ ← keyword "as"
        target
      return (name, given.getD name))
    (mark ',')
  return .fetch line template names

def parameter (levels : Nat) : LexemeReader (Text × Option Expression) := do
  let name ← target
  if ← Reader.accepts (mark '=') then return (name, some (← expression levels))
  else return (name, none)

/-- Once a parameter has a default, all later ones have one. -/
def defaultsComeLast (parameters : List (Text × Option Expression)) : Bool :=
  (parameters.dropWhile (·.2.isNone)).all (·.2.isSome)

def definition (levels : Nat) (part : LexemeReader Statement) : LexemeReader Statement := do
  let _ ← keyword "macro"
  let (name, _) ← anyName
  mark '('
  let parameters ← listed (parameter levels) ')'
  let body ← bodyUntil part "endmacro"
  if defaultsComeLast parameters then return .define name parameters body else fail

/-- A part of a template with so many levels at most. -/
def part : Nat → LexemeReader Statement
  | 0 => textOrOutput 0
  | levels + 1 => textOrOutput (levels + 1) <|> (do
    openStatement
    let statement ←
      choice levels (part levels) <|> loop levels (part levels) <|>
      assignment levels (part levels) <|> block (part levels) <|> parent levels <|>
      embedding levels <|> fetching levels <|> definition levels (part levels)
    closeStatement
    return statement)

def maxLevels : Nat := 150

/-- Reads a template. Each block stands in it once, and none in a definition. -/
def read? (source : Text) : Option Template := do
  let lexemes ← lexemes? source
  let body ← Reader.run? (many (part maxLevels)) lexemes
  let blocks := (Statement.blocksOf body).map Prod.fst
  if blocks.Nodup ∧ Statement.keepAllOutside body then some ⟨source, body⟩ else none

end Template

end ComponentTags
