import ComponentTags.Data
import ComponentTags.Text.Quoted

/-!
# Data in JSON

A document is first cut into tokens and these are then read with a stack of the lists and maps that
are still open, at most 127 deep. Integers of 64 bits stay integers. Any other number takes the
first digits that fit into 64 bits, scaled once by a power of ten, so its last place may differ from
that of the nearest float.
-/

namespace ComponentTags.Data.Json

/-! ## Numbers -/

def digitValue (c : Char) : Nat :=
  c.toNat - 48

def maxSignificand : Nat := Nat.pow 2 64 - 1

/-- A power of ten within the range of floats. -/
def powerOfTen (n : Nat) : Float :=
  Float.ofScientific 1 false n

/-- Divides by a power of ten, in steps that stay within the range of floats. -/
def divideByPower (x : Float) (n : Nat) : Float :=
  if n ≤ 308 then x / powerOfTen n
  else if x == 0.0 then x
  else divideByPower (x / powerOfTen 308) (n - 308)
termination_by n

/-- The float `significand * 10 ^ exponent` with a sign, unless it is too large. -/
def scale? (negative : Bool) (significand : Nat) (exponent : Int) : Option Float :=
  let x := (UInt64.ofNat significand).toFloat
  let signed (x : Float) := if negative then -x else x
  if exponent < 0 then some (signed (divideByPower x exponent.natAbs))
  else if exponent ≤ 308 then
    let y := x * powerOfTen exponent.natAbs
    if y.isInf then none else some (signed y)
  else if x == 0.0 then some (signed x)
  else none

/-- Takes digits into the significand while it fits into 64 bits. Returns the significand, the
number of digits taken and the digits left over. -/
def takeDigits (significand taken : Nat) : Text → Nat × Nat × Text
  | [] => (significand, taken, [])
  | c :: s =>
    let next := significand * 10 + digitValue c
    if next ≤ maxSignificand then takeDigits next (taken + 1) s
    else (significand, taken, c :: s)

/-- The value of an exponent's digits, unless it is beyond 31 bits. -/
def exponentValue? (digits : Text) : Option Nat :=
  let n := digits.foldl (fun n c => n * 10 + digitValue c) 0
  if n < Nat.pow 2 31 then some n else none

/-- Splits a number into sign, whole part, fraction and exponent, each with its mark. -/
def number? (s : Text) : Option Data := do
  let (negative, s) := match s with
    | '-' :: rest => (true, rest)
    | _ => (false, s)
  let whole := s.takeWhile Char.isDigit
  let rest := s.dropWhile Char.isDigit
  if whole.isEmpty || (whole.length > 1 && whole.head? == some '0') then none
  let (fraction, rest) ← match rest with
    | '.' :: rest =>
      let digits := rest.takeWhile Char.isDigit
      if digits.isEmpty then none else some (some digits, rest.dropWhile Char.isDigit)
    | _ => some (none, rest)
  let power ← match rest with
    | [] => some none
    | mark :: rest =>
      if mark ≠ 'e' ∧ mark ≠ 'E' then none
      else
        let (down, digits) := match rest with
          | '-' :: digits => (true, digits)
          | '+' :: digits => (false, digits)
          | _ => (false, rest)
        if digits.isEmpty || !digits.all Char.isDigit then none else some (some (down, digits))
  let (significand, _, dropped) := takeDigits 0 0 whole
  if fraction.isNone && power.isNone && dropped.isEmpty then
    if !negative then return .int significand
    else if 0 < significand ∧ significand ≤ Nat.pow 2 63 then return .int (-significand)
    else return .float (-(UInt64.ofNat significand).toFloat)
  let (significand, taken, _) := takeDigits significand 0 (fraction.getD [])
  let exponent : Int := dropped.length - taken
  match power with
  | none => (scale? negative significand exponent).map .float
  | some (down, digits) =>
    match exponentValue? digits with
    | some n =>
      (scale? negative significand (if down then exponent - n else exponent + n)).map .float
    | none =>
      if significand ≠ 0 ∧ !down then none
      else return .float (if negative then -0.0 else 0.0)

/-! ## Tokens -/

inductive Token where
  | openList | closeList | openMap | closeMap | comma | colon
  | string (s : Text)
  /-- A number or one of the three words. -/
  | scalar (value : Data)

def isNumberChar (c : Char) : Bool :=
  c.isDigit || c = '-' || c = '+' || c = '.' || c = 'e' || c = 'E'

def mark? : Char → Option Token
  | '[' => some .openList
  | ']' => some .closeList
  | '\x7b' => some .openMap
  | '\x7d' => some .closeMap
  | ',' => some .comma
  | ':' => some .colon
  | _ => none

def word? (s : Text) : Option Data :=
  if s = "null".toList then some .null
  else if s = "true".toList then some (.bool true)
  else if s = "false".toList then some (.bool false)
  else none

def tokens? (s : Text) : Option (List Token) :=
  match s with
  | [] => some []
  | c :: rest =>
    if c = ' ' ∨ c = '\t' ∨ c = '\n' ∨ c = '\r' then tokens? rest
    else if c = '"' then
      match h : Text.unquote rest with
      | none => none
      | some (value, after) =>
        have := Text.unquote_length h
        (tokens? after).map (.string value :: ·)
    else if c = '-' || c.isDigit then
      match number? (c :: rest.takeWhile isNumberChar) with
      | none => none
      | some value => (tokens? (rest.dropWhile isNumberChar)).map (.scalar value :: ·)
    else if c.isLower then
      match word? (c :: rest.takeWhile Char.isLower) with
      | none => none
      | some value => (tokens? (rest.dropWhile Char.isLower)).map (.scalar value :: ·)
    else
      match mark? c with
      | none => none
      | some token => (tokens? rest).map (token :: ·)
termination_by s.length
decreasing_by
  all_goals simp only [List.length_cons] at *
  · omega
  · omega
  · have := Text.length_dropWhile_le isNumberChar rest; omega
  · have := Text.length_dropWhile_le Char.isLower rest; omega
  · omega

/-! ## Values -/

/-- A list or map that is still open, with what has been read of it. -/
inductive Frame where
  | list (items : List Data)
  | map (entries : List (Text × Data)) (key : Text)

/-- What may come next. -/
inductive Expected where
  | value
  | itemOrClose
  | key (entries : List (Text × Data)) (canClose : Bool)
  | colon (entries : List (Text × Data)) (key : Text)
  | commaOrClose
  | done (value : Data)

/-- Nesting that is still accepted. -/
def maxDepth : Nat := 127

/-- The state after a value has been completed inside the open frames. -/
def complete (value : Data) : List Frame → Expected × List Frame
  | [] => (.done value, [])
  | .list items :: frames => (.commaOrClose, .list (value :: items) :: frames)
  | .map entries key :: frames =>
    (.commaOrClose, .map (Keyed.insert key value entries) key :: frames)

/-- Goes one level deeper, if the open `frames` leave room for it. -/
def enter (inside : Expected × List Frame) (frames : List Frame) : Option (Expected × List Frame) :=
  if frames.length < maxDepth then some inside else none

/-- Reads one token. A map has no frame of its own while a key is awaited. -/
def step (state : Expected × List Frame) (token : Token) : Option (Expected × List Frame) :=
  match state, token with
  | (.value, frames), .string s => some (complete (.string s) frames)
  | (.value, frames), .scalar v => some (complete v frames)
  | (.value, frames), .openList => enter (.itemOrClose, .list [] :: frames) frames
  | (.value, frames), .openMap => enter (.key [] true, frames) frames
  | (.itemOrClose, .list _ :: frames), .closeList => some (complete (.list []) frames)
  | (.itemOrClose, frames), .string s => some (complete (.string s) frames)
  | (.itemOrClose, frames), .scalar v => some (complete v frames)
  | (.itemOrClose, frames), .openList => enter (.itemOrClose, .list [] :: frames) frames
  | (.itemOrClose, frames), .openMap => enter (.key [] true, frames) frames
  | (.key entries _, frames), .string key => some (.colon entries key, frames)
  | (.key entries true, frames), .closeMap => some (complete (.map entries) frames)
  | (.colon entries key, frames), .colon => some (.value, .map entries key :: frames)
  | (.commaOrClose, .list items :: frames), .comma => some (.value, .list items :: frames)
  | (.commaOrClose, .list items :: frames), .closeList =>
    some (complete (.list items.reverse) frames)
  | (.commaOrClose, .map entries _ :: frames), .comma => some (.key entries false, frames)
  | (.commaOrClose, .map entries _ :: frames), .closeMap => some (complete (.map entries) frames)
  | _, _ => none

/-- The value of a JSON document. -/
def read? (s : Text) : Option Data := do
  let tokens ← tokens? s
  match ← tokens.foldlM step (.value, []) with
  | (.done value, []) => some value
  | _ => none

end ComponentTags.Data.Json
