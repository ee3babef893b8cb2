import ComponentTags.Text.Basic

/-!
# Faults

What goes wrong while a template is rendered. A fault gets the place of the code that is evaluated
when it arises; an outer template that embeds a faulty one adds a fault of its own around it.
-/

namespace ComponentTags.Template

inductive Fault where
  | mk (kind : String) (detail : Option Text) (place : Option (Text × Nat)) (cause : Option Fault)
deriving Inhabited

namespace Fault

def ofDetail (kind : String) (detail : Text) : Fault :=
  mk kind (some detail) none none

def templateNotFound (detail : Text) : Fault :=
  ofDetail "template not found" detail

def invalidOperation (detail : Text) : Fault :=
  ofDetail "invalid operation" detail

def tooManyArguments (detail : Text) : Fault :=
  ofDetail "too many arguments" detail

def surplusArguments : Fault :=
  mk "too many arguments" none none none

def missingArgument : Fault :=
  mk "missing argument" none none none

def missingNamed (key : String) : Fault :=
  ofDetail "missing argument" s!"missing keyword argument '{key}'".toList

def undefinedValue : Fault :=
  mk "undefined value" none none none

def syntaxError : Fault :=
  mk "syntax error" none none none

def unknownFilter (name : Text) : Fault :=
  ofDetail "unknown filter" ("filter ".toList ++ name ++ " is unknown".toList)

def unknownFunction (name : Text) : Fault :=
  ofDetail "unknown function" (name ++ " is unknown".toList)

/-- Nesting has gone too far. -/
def tooDeep : Fault :=
  invalidOperation "recursion limit exceeded".toList

/-- A fault inside an embedded template. -/
def inside (template : Text) (cause : Fault) : Fault :=
  mk "could not render include" (some ("error in \"".toList ++ template ++ ['"'])) none (some cause)

/-- Places a fault that has no place yet. -/
def placed (template : Text) (line : Nat) : Fault → Fault
  | mk kind detail none cause => mk kind detail (some (template, line)) cause
  | fault => fault

/-- What the fault says without its causes. -/
def describe : Fault → Text
  | mk kind detail place _ =>
    let detail := match detail with
      | none => []
      | some d => ": ".toList ++ d
    let place := match place with
      | none => []
      | some (template, line) => " (in ".toList ++ template ++ ':' :: Text.ofNat line ++ [')']
    kind.toList ++ detail ++ place

/-- What the causes say, the nearest one first. -/
def causes : Fault → List Text
  | mk _ _ _ none => []
  | mk _ _ _ (some cause) => cause.describe :: cause.causes

end Fault

end ComponentTags.Template
