import ComponentTags.Data
import ComponentTags.Data.Decimal
import ComponentTags.Text.Digits

/-!
# Scalars of YAML

What a plain scalar means: null, a truth value, an integer, a float, or else its own text. Decimal
digits after a leading zero are text. A tag of the core schema asks for one meaning.
-/

namespace ComponentTags.Yaml

def isNull (s : Text) : Bool :=
  ["null", "Null", "NULL", "~"].contains (String.ofList s)

def truth? (s : Text) : Option Bool :=
  if ["true", "True", "TRUE"].contains (String.ofList s) then some true
  else if ["false", "False", "FALSE"].contains (String.ofList s) then some false
  else none

def dropPlus : Text → Text
  | '+' :: s => s
  | s => s

/-- Whether the text is a sign that may be missing, a zero and more digits. -/
def isZeroPadded (s : Text) : Bool :=
  let digits := match s with
    | '+' :: rest => rest
    | '-' :: rest => rest
    | _ => s
  match digits with
  | '0' :: rest => !rest.isEmpty && rest.all Char.isDigit
  | _ => false

/-- Digits with a mark of their base in front. -/
def based? : Text → Option Nat
  | '0' :: 'x' :: s => Text.natural? 16 s
  | '0' :: 'o' :: s => Text.natural? 8 s
  | '0' :: 'b' :: s => Text.natural? 2 s
  | s => Text.natural? 10 s

def integer? (s : Text) : Option Int :=
  if isZeroPadded s then none
  else
    match s with
    | '-' :: rest => (based? rest).map fun n => -(n : Int)
    | _ => (based? (dropPlus s)).map fun n => (n : Int)

/-- Whether an integer has a place in data. -/
def isHeld (n : Int) : Bool :=
  -(Nat.pow 2 63 : Int) ≤ n && n < Nat.pow 2 64

/-- Whether an integer is read as one at all, if only to be refused. -/
def isIntegral (n : Int) : Bool :=
  -(Nat.pow 2 127 : Int) ≤ n && n < Nat.pow 2 128

/-- The digits after the mark of an exponent. -/
def exponent? : Text → Option Int
  | '-' :: s => (Text.natural? 10 s).map fun n => -(n : Int)
  | '+' :: s => (Text.natural? 10 s).map fun n => (n : Int)
  | s => (Text.natural? 10 s).map fun n => (n : Int)

/-- The magnitude of a decimal number. There is a digit on one side of the point at least. -/
def magnitude? (s : Text) : Option Float := do
  let isMark (c : Char) := c == 'e' || c == 'E'
  let mantissa := s.takeWhile (!isMark ·)
  let exponent ← match s.dropWhile (!isMark ·) with
    | [] => some 0
    | _ :: digits => exponent? digits
  let whole := mantissa.takeWhile (· ≠ '.')
  let fraction := (mantissa.dropWhile (· ≠ '.')).drop 1
  let n ← Text.natural? 10 (whole ++ fraction)
  let x := Decimal.ofDecimal n (exponent - fraction.length)
  if x.isInf then none else some x

/-- A float with its sign. -/
def float? (s : Text) : Option Float :=
  match s with
  | '-' :: rest => (magnitude? rest).map (- ·)
  | _ => magnitude? (dropPlus s)

/-- Whether the text stands for an infinity or for no number. Data has neither. -/
def isNoNumber (s : Text) : Bool :=
  [".inf", ".Inf", ".INF", "+.inf", "+.Inf", "+.INF", "-.inf", "-.Inf", "-.INF",
    ".nan", ".NaN", ".NAN"].contains (String.ofList s)

/-- The number that a text writes. It is an error if no data can hold it. -/
def number? (s : Text) : Option (Option Data) :=
  match integer? s with
  | some n =>
    if isHeld n then some (some (.int n))
    else if isIntegral n then some none
    else (float? s).map fun x => some (.float x)
  | none =>
    if isZeroPadded s then none
    else if isNoNumber s then some (some .null)
    else (float? s).map fun x => some (.float x)

/-- The meaning of a plain scalar. -/
def plain? (s : Text) : Option Data :=
  if s.isEmpty || isNull s then some .null
  else
    match truth? s with
    | some b => some (.bool b)
    | none => (number? s).getD (some (.string s))

/-- The meaning of a scalar with a tag, if it can have it. Tags of applications have none. -/
def tagged? (tag s : Text) : Option Data :=
  match String.ofList tag with
  | "tag:yaml.org,2002:bool" => (truth? s).map .bool
  | "tag:yaml.org,2002:int" =>
    (integer? s).bind fun n => if isHeld n then some (.int n) else none
  | "tag:yaml.org,2002:float" =>
    if isNoNumber s then some .null else (float? s).map .float
  | "tag:yaml.org,2002:null" => if isNull s then some .null else none
  | _ => some (.string s)

end ComponentTags.Yaml
