import ComponentTags.Data.Decimal
import ComponentTags.Text.Reader
import ComponentTags.Text.Digits

/-!
# Scalars of TOML

The values of a TOML document and the forms in which those without parts are written. A date or
time is kept as its text in normal form.
-/

namespace ComponentTags.Toml

inductive Value where
  | string (s : Text)
  | integer (n : Int)
  | float (x : Float)
  | boolean (b : Bool)
  | datetime (s : Text)
  | array (items : List Value)
  | table (entries : List (Text × Value))
deriving Inhabited

/-! ## Numbers -/

/-- Digits with single underscores between them, as the digits alone. -/
def digits? (p : Char → Bool) (s : Text) : Option Text :=
  let groups := Text.split '_' s
  if groups.all fun g => !g.isEmpty && g.all p then some groups.flatten else none

/-- Whether digits do not begin with a zero that could be left out. -/
def isPlain (digits : Text) : Bool :=
  digits.length == 1 || digits.head? != some '0'

def splitSign : Text → Bool × Text
  | '-' :: s => (true, s)
  | '+' :: s => (false, s)
  | s => (false, s)

def fits64 (n : Int) : Bool :=
  -(Nat.pow 2 63 : Int) ≤ n && n < Nat.pow 2 63

def based? (base : Nat) (s : Text) : Option Value := do
  let n := Text.natural base (← digits? (Text.isDigitOf base) s)
  if fits64 n then some (.integer n) else none

def integer? : Text → Option Value
  | '0' :: 'x' :: s => based? 16 s
  | '0' :: 'o' :: s => based? 8 s
  | '0' :: 'b' :: s => based? 2 s
  | s => do
    let (negative, s) := splitSign s
    let digits ← digits? Char.isDigit s
    let n : Int := if negative then -(Text.natural 10 digits) else Text.natural 10 digits
    if isPlain digits && fits64 n then some (.integer n) else none

/-- The digits after the mark of an exponent, with their sign. -/
def power? (s : Text) : Option Int := do
  let (down, s) := splitSign s
  let n := Text.natural 10 (← digits? Char.isDigit s)
  return if down then -n else n

def isPowerMark (c : Char) : Bool :=
  c = 'e' || c = 'E'

/-- A number with a fraction or an exponent. One that is too large is none. -/
def decimal? (s : Text) : Option Float := do
  let mantissa := s.takeWhile (!isPowerMark ·)
  let power ← match s.dropWhile (!isPowerMark ·) with
    | [] => some 0
    | _ :: s => power? s
  let whole ← digits? Char.isDigit (mantissa.takeWhile (· ≠ '.'))
  let fraction ← match mantissa.dropWhile (· ≠ '.') with
    | [] => some []
    | _ :: s => digits? Char.isDigit s
  if !isPlain whole || (mantissa.length = s.length && fraction.isEmpty) then none
  let x := Decimal.ofDecimal (Text.natural 10 (whole ++ fraction)) (power - fraction.length)
  if x.isInf then none else some x

def float? (s : Text) : Option Value := do
  let (negative, magnitude) := splitSign s
  let x ←
    if magnitude = "inf".toList then some (1.0 / 0.0)
    else if magnitude = "nan".toList then some (0.0 / 0.0)
    else decimal? magnitude
  return .float (if negative then -x else x)

def boolean? (s : Text) : Option Value :=
  if s = "true".toList then some (.boolean true)
  else if s = "false".toList then some (.boolean false)
  else none

/-! ## Dates and times -/

/-- A number of exactly `count` digits, of which the value has to be in a range. -/
def field (count low high : Nat) : Reader Char Text := do
  let digits ← (List.range count).mapM fun _ => Reader.satisfy Char.isDigit
  let n := Text.natural 10 digits
  if low ≤ n && n ≤ high then pure digits else Reader.fail

def daysIn (year month : Nat) : Nat :=
  if month = 2 then if year % 4 = 0 ∧ (year % 100 ≠ 0 ∨ year % 400 = 0) then 29 else 28
  else if [4, 6, 9, 11].contains month then 30
  else 31

def date : Reader Char Text := do
  let year ← field 4 0 9999
  Reader.exactly ['-']
  let month ← field 2 1 12
  Reader.exactly ['-']
  let day ← field 2 1 (daysIn (Text.natural 10 year) (Text.natural 10 month))
  return year ++ '-' :: month ++ '-' :: day

/-- A fraction of a second has at most nine places and no zeros at its end. -/
def normalFraction (digits : Text) : Text :=
  match Text.dropEndWhile (· == '0') (digits.take 9) with
  | [] => ['0']
  | digits => digits

def seconds : Reader Char Text := do
  Reader.exactly [':']
  let second ← field 2 0 60
  if ← Reader.accepts (Reader.exactly ['.']) then
    let digits ← Reader.takeWhile1 Char.isDigit
    return ':' :: second ++ '.' :: normalFraction digits
  return ':' :: second

def time : Reader Char Text := do
  let hour ← field 2 0 23
  Reader.exactly [':']
  let minute ← field 2 0 59
  return hour ++ ':' :: minute ++ ((← optional seconds).getD [])

def zone : Reader Char Text := do
  let c ← Reader.item
  if c = 'Z' ∨ c = 'z' then return ['Z']
  if c ≠ '+' ∧ c ≠ '-' then Reader.fail
  let hour ← field 2 0 23
  Reader.exactly [':']
  let minute ← field 2 0 59
  return c :: hour ++ ':' :: minute

def dateTime : Reader Char Text := do
  let day ← date
  let _ ← Reader.satisfy fun c => c = 'T' || c = 't' || c = ' '
  let clock ← time
  return day ++ 'T' :: clock ++ ((← optional zone).getD [])

/-- The normal form of a date, a time or both. -/
def datetime? (s : Text) : Option Value :=
  ((Reader.run? dateTime s).orElse fun _ =>
    (Reader.run? date s).orElse fun _ => Reader.run? time s).map .datetime

/-- The value of a word that is neither quoted nor bracketed. -/
def scalar? (s : Text) : Option Value :=
  (boolean? s).orElse fun _ => (integer? s).orElse fun _ => (float? s).orElse fun _ => datetime? s

/-! ## Strings -/

/-- Characters that may stand in a string as they are. Line breaks are treated apart. -/
def isStringChar (c : Char) : Bool :=
  c == '\t' || (32 ≤ c.toNat && c.toNat ≠ 127)

/-- A character given by its number in hexadecimal digits. -/
def codePoint (count : Nat) : Reader Char Char := do
  let digits ← (List.range count).mapM fun _ => Reader.satisfy (Text.isDigitOf 16)
  let n := Text.natural 16 digits
  if n.isValidChar then pure (Char.ofNat n) else Reader.fail

/-- The character after a backslash. -/
def escaped : Reader Char Char := do
  match ← Reader.item with
  | 'b' => return Char.ofNat 8
  | 't' => return '\t'
  | 'n' => return '\n'
  | 'f' => return Char.ofNat 12
  | 'r' => return '\r'
  | 'e' => return Char.ofNat 27
  | '"' => return '"'
  | '\\' => return '\\'
  | 'x' => codePoint 2
  | 'u' => codePoint 4
  | 'U' => codePoint 8
  | _ => Reader.fail

def newline : Reader Char Unit :=
  Reader.exactly ['\n'] <|> Reader.exactly ['\r', '\n']

def isTomlSpace (c : Char) : Bool :=
  c == ' ' || c == '\t'

/-- One character of a basic string on one line. -/
def basicChar : Reader Char Text := do
  let c ← Reader.satisfy fun c => isStringChar c && c != '"'
  if c = '\\' then return [← escaped] else return [c]

def basicString : Reader Char Text := do
  Reader.exactly ['"']
  let parts ← Reader.many basicChar
  Reader.exactly ['"']
  return parts.flatten

def literalString : Reader Char Text := do
  Reader.exactly ['\'']
  let s ← Reader.takeWhile fun c => isStringChar c && c != '\''
  Reader.exactly ['\'']
  return s

/-- A line break as written. -/
def lineBreak : Reader Char Text :=
  (do Reader.exactly ['\n']; return ['\n']) <|>
    (do Reader.exactly ['\r', '\n']; return ['\r', '\n'])

/-- A backslash at the end of a line, with the blank space it removes. -/
def lineJoin : Reader Char Text := do
  Reader.exactly ['\\']
  let _ ← Reader.takeWhile isTomlSpace
  newline
  let _ ← Reader.many ((do let _ ← Reader.takeWhile1 isTomlSpace) <|> newline)
  return []

/-- Up to two quotes that do not end a string of several lines. -/
def innerQuotes (quote : Char) : Reader Char Text := fun s =>
  match s with
  | a :: b :: c :: rest =>
    if a ≠ quote then none
    else if b ≠ quote then some ([a], b :: c :: rest)
    else if c ≠ quote then some ([a, b], c :: rest)
    else none
  | _ => none

/-- What three quotes and up to two more leave of the string they end. -/
def closingQuotes (quote : Char) : Reader Char Text := do
  Reader.exactly [quote, quote, quote]
  let first ← Reader.accepts (Reader.exactly [quote])
  let second ← if first then Reader.accepts (Reader.exactly [quote]) else pure false
  return (if first then [quote] else []) ++ (if second then [quote] else [])

def multilineString (quote : Char) (part : Reader Char Text) : Reader Char Text := do
  Reader.exactly [quote, quote, quote]
  let _ ← Reader.accepts newline
  let parts ← Reader.many (innerQuotes quote <|> lineBreak <|> part)
  return parts.flatten ++ (← closingQuotes quote)

def literalChar : Reader Char Text := do
  return [← Reader.satisfy fun c => isStringChar c && c != '\'']

def string : Reader Char Text :=
  multilineString '"' (lineJoin <|> basicChar) <|> multilineString '\'' literalChar
    <|> basicString <|> literalString

end ComponentTags.Toml
