import ComponentTags.Data.Decimal
import ComponentTags.Template.Expression

/-!
# Values of templates

Values while a template is rendered: data, the undefined value of names without one, and definitions
that can be called. A text is safe if it is output as it is; other texts are escaped for HTML.
-/

namespace ComponentTags.Template

/-- A definition that can be called, with the template it comes from and the number of the scope
that it was made in. -/
structure Callable where
  template : Text
  name : Text
  parameters : List (Text × Option Expression)
  body : List Statement
  scope : Nat

inductive Value where
  | undefined
  | null
  | bool (b : Bool)
  | int (n : Int)
  | float (x : Float)
  | text (s : Text) (safe : Bool)
  | list (items : List Value)
  /-- Entries in key order. -/
  | map (entries : List (Text × Value))
  | callable (c : Callable)
deriving Inhabited

namespace Value

mutual

def ofData : Data → Value
  | .null => null
  | .bool b => bool b
  | .int n => int n
  | .float x => float x
  | .string s => text s false
  | .list items => list (ofItems items)
  | .map entries => map (ofEntries entries)

def ofItems : List Data → List Value
  | [] => []
  | d :: rest => ofData d :: ofItems rest

def ofEntries : List (Text × Data) → List (Text × Value)
  | [] => []
  | (key, d) :: rest => (key, ofData d) :: ofEntries rest

end

def isUndefined : Value → Bool
  | undefined => true
  | _ => false

def isTrue : Value → Bool
  | undefined => false
  | null => false
  | bool b => b
  | int n => n != 0
  | float x => x != 0
  | text s _ => !s.isEmpty
  | list items => !items.isEmpty
  | map entries => !entries.isEmpty
  | callable _ => true

/-- The name of the kind of a value. -/
def kind : Value → String
  | undefined => "undefined"
  | null => "none"
  | bool _ => "bool"
  | int _ => "number"
  | float _ => "number"
  | text .. => "string"
  | list _ => "sequence"
  | map _ => "map"
  | callable _ => "plain object"

/-! ## Text of values -/

/-- A character inside a text that is part of a list or map. -/
def shownChar (c : Char) : Text :=
  if c = '"' ∨ c = '\\' then ['\\', c]
  else if c = '\n' then ['\\', 'n']
  else if c = '\r' then ['\\', 'r']
  else if c = '\t' then ['\\', 't']
  else if c.toNat = 0 then ['\\', '0']
  else if c.toNat < 32 ∨ (127 ≤ c.toNat ∧ c.toNat < 160) ∨ (0x300 ≤ c.toNat ∧ c.toNat < 0x370) then
    "\\u\x7b".toList ++ Nat.toDigits 16 c.toNat ++ ['\x7d']
  else [c]

/-- A text between quotes, with control characters and combining marks by their numbers. -/
def shownText (s : Text) : Text :=
  '"' :: s.flatMap shownChar ++ ['"']

mutual

/-- The text of a value inside a list or map. -/
def inner : Value → Text
  | undefined => "undefined".toList
  | null => "None".toList
  | bool b => if b then "True".toList else "False".toList
  | int n => (toString n).toList
  | float x => Decimal.format x
  | text s _ => shownText s
  | list items => '[' :: Text.join ", ".toList (inners items) ++ [']']
  | map entries => '\x7b' :: Text.join ", ".toList (innerEntries entries) ++ ['\x7d']
  | callable c => "<macro ".toList ++ c.name ++ ['>']

def inners : List Value → List Text
  | [] => []
  | v :: rest => v.inner :: inners rest

def innerEntries : List (Text × Value) → List Text
  | [] => []
  | (key, v) :: rest => (shownText key ++ ": ".toList ++ v.inner) :: innerEntries rest

end

/-- The text of a value in the output. -/
def print : Value → Text
  | undefined => []
  | text s _ => s
  | v => v.inner

def escapeChar (c : Char) : Text :=
  if c = '<' then "&lt;".toList
  else if c = '>' then "&gt;".toList
  else if c = '&' then "&amp;".toList
  else if c = '"' then "&quot;".toList
  else if c = '\'' then "&#x27;".toList
  else if c = '/' then "&#x2f;".toList
  else [c]

/-- The output of a value, escaped unless it is a safe text. -/
def output (escaped : Bool) : Value → Text
  | text s true => s
  | v => if escaped then v.print.flatMap escapeChar else v.print

/-! ## Parts of values -/

/-- The value under a key. What is no map has undefined ones. -/
def field (key : Text) : Value → Value
  | map entries => (Keyed.find? key entries).getD undefined
  | _ => undefined

/-- The position that an index means. Negative ones count from the end. -/
def position? (size : Nat) (index : Int) : Option Nat :=
  if 0 ≤ index then some index.toNat
  else if index.natAbs ≤ size then some (size - index.natAbs)
  else none

/-- The item of a list or text at a position, or the value of a map under a key. -/
def item : Value → Value → Value
  | map entries, text k _ => (Keyed.find? k entries).getD undefined
  | list items, int n => ((position? items.length n).bind (items[·]?)).getD undefined
  | text s _, int n => ((position? s.length n).bind (s[·]?)).elim undefined fun c => text [c] false
  | _, _ => undefined

/-- What a loop goes through. -/
def items? : Value → Option (List Value)
  | undefined => some []
  | null => some []
  | list items => some items
  | map entries => some (entries.map fun e => text e.1 false)
  | text s _ => some (s.map fun c => text [c] false)
  | _ => none

/-! ## Order -/

/-- Values of different kinds are ordered by kind. -/
def rank : Value → Nat
  | undefined => 0
  | null => 1
  | bool _ => 2
  | int _ => 3
  | float _ => 3
  | text .. => 4
  | list _ => 5
  | map _ => 6
  | callable _ => 7

def less (a b : Value) : Bool :=
  match a, b with
  | bool a, bool b => !a && b
  | int a, int b => decide (a < b)
  | int a, float b => Float.ofInt a < b
  | float a, int b => a < Float.ofInt b
  | float a, float b => a < b
  | text a _, text b _ => decide (a < b)
  | a, b => decide (a.rank < b.rank)

end Value

end ComponentTags.Template
