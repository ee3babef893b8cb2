import ComponentTags.Data

/-!
# Expressions and statements

What the code in a template consists of. Names, literals and calls carry the line they stand on.
-/

namespace ComponentTags.Template

inductive Expression where
  | literal (line : Nat) (value : Data)
  | name (line : Nat) (id : Text)
  | field (whole : Expression) (key : Text)
  | item (whole key : Expression)
  | map (line : Nat) (entries : List (Expression × Expression))
  | less (a b : Expression)
  | filter (value : Expression) (name : Text)
  | call (line : Nat) (function : Text) (positional : List Expression)
      (named : List (Text × Expression))
deriving Inhabited

namespace Expression

mutual

/-- The line of what is evaluated last before the expression itself. Faults are placed there. -/
def line : Expression → Nat
  | literal line _ => line
  | name line _ => line
  | field whole _ => whole.line
  | item _ key => key.line
  | map line entries => lastEntryLine line entries
  | less _ b => b.line
  | filter value _ => value.line
  | call line _ positional named => lastNamedLine (lastLine line positional) named

def lastLine (line : Nat) : List Expression → Nat
  | [] => line
  | e :: rest => lastLine e.line rest

def lastEntryLine (line : Nat) : List (Expression × Expression) → Nat
  | [] => line
  | (_, e) :: rest => lastEntryLine e.line rest

def lastNamedLine (line : Nat) : List (Text × Expression) → Nat
  | [] => line
  | (_, e) :: rest => lastNamedLine e.line rest

end

mutual

/-- The names of variables and functions in an expression. -/
def names : Expression → List Text
  | literal .. => []
  | name _ id => [id]
  | field whole _ => whole.names
  | item whole key => whole.names ++ key.names
  | map _ entries => namesOfEntries entries
  | less a b => a.names ++ b.names
  | filter value _ => value.names
  | call _ function positional named =>
    function :: namesOfAll positional ++ namesOfNamed named

def namesOfAll : List Expression → List Text
  | [] => []
  | e :: rest => e.names ++ namesOfAll rest

def namesOfEntries : List (Expression × Expression) → List Text
  | [] => []
  | (k, v) :: rest => k.names ++ v.names ++ namesOfEntries rest

def namesOfNamed : List (Text × Expression) → List Text
  | [] => []
  | (_, e) :: rest => e.names ++ namesOfNamed rest

end

end Expression

inductive Statement where
  | text (s : Text)
  | output (value : Expression)
  | choice (condition : Expression) (yes no : List Statement)
  | loop (target : Text) (items : Expression) (body otherwise : List Statement)
  | assign (target : Text) (value : Expression)
  /-- Assigns the output of its body. -/
  | capture (target : Text) (body : List Statement)
  /-- A part that templates extending this one may replace. -/
  | block (name : Text) (body : List Statement)
  /-- Makes the rest of the output that of another template, with the blocks of this one. -/
  | parent (line : Nat) (name : Expression)
  /-- The output of another template. -/
  | embed (line : Nat) (name : Expression) (mayBeMissing : Bool)
  /-- Definitions of another template, each under a name of its own. -/
  | fetch (line : Nat) (name : Expression) (names : List (Text × Text))
  | define (name : Text) (parameters : List (Text × Option Expression)) (body : List Statement)
deriving Inhabited

namespace Statement

mutual

/-- The blocks in a statement, the outer ones first. -/
def blocks : Statement → List (Text × List Statement)
  | choice _ yes no => blocksOf yes ++ blocksOf no
  | loop _ _ body otherwise => blocksOf body ++ blocksOf otherwise
  | capture _ body => blocksOf body
  | block name body => (name, body) :: blocksOf body
  | define _ _ body => blocksOf body
  | _ => []

def blocksOf : List Statement → List (Text × List Statement)
  | [] => []
  | s :: rest => s.blocks ++ blocksOf rest

end

mutual

/-- Whether blocks stand only outside of definitions. -/
def keepsBlocksOutside : Statement → Bool
  | choice _ yes no => keepAllOutside yes && keepAllOutside no
  | loop _ _ body otherwise => keepAllOutside body && keepAllOutside otherwise
  | capture _ body => keepAllOutside body
  | block _ body => keepAllOutside body
  | define _ _ body => (blocksOf body).isEmpty
  | _ => true

def keepAllOutside : List Statement → Bool
  | [] => true
  | s :: rest => s.keepsBlocksOutside && keepAllOutside rest

end

mutual

/-- The names of variables and functions in a statement. -/
def names : Statement → List Text
  | text _ => []
  | output value => value.names
  | choice condition yes no => condition.names ++ namesOf yes ++ namesOf no
  | loop _ items body otherwise => items.names ++ namesOf body ++ namesOf otherwise
  | assign _ value => value.names
  | capture _ body => namesOf body
  | block _ body => namesOf body
  | parent _ name => name.names
  | embed _ name _ => name.names
  | fetch _ name _ => name.names
  | define _ parameters body => parameters.flatMap (·.2.elim [] Expression.names) ++ namesOf body

def namesOf : List Statement → List Text
  | [] => []
  | s :: rest => s.names ++ namesOf rest

end

end Statement

end ComponentTags.Template
