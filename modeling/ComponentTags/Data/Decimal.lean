import ComponentTags.Text.Basic

/-!
# Floats in decimal

`ofDecimal` is the float nearest to a decimal number. `shortest` finds the fewest digits that read
back as a given float, and of those the nearest to it; `format` writes them without an exponent.
-/

namespace ComponentTags.Decimal

/-- The float nearest to `significand * 10 ^ exponent`. -/
def ofDecimal (significand : Nat) (exponent : Int) : Float :=
  let magnitude : Int := (Nat.toDigits 10 significand).length + exponent
  if significand = 0 ∨ magnitude < -330 then 0.0
  else if magnitude > 310 then 1.0 / 0.0
  else if exponent < 0 then Float.ofScientific significand true exponent.natAbs
  else Float.ofScientific significand false exponent.natAbs

/-- A positive float as `mantissa * 2 ^ exponent`, with the place where floats below it are half as
far apart as those above. -/
structure Binary where
  mantissa : Nat
  exponent : Int
  atBinade : Bool

def Binary.ofBits (bits : Nat) : Binary :=
  let fraction : Nat := bits % Nat.pow 2 52
  let biased : Nat := bits / Nat.pow 2 52 % Nat.pow 2 11
  if biased = 0 then ⟨fraction, -1074, false⟩
  else ⟨fraction + Nat.pow 2 52, (biased : Int) - 1075, fraction = 0 && 1 < biased⟩

/-- A number as a quotient. -/
structure Ratio where
  num : Nat
  den : Nat

def Ratio.le (a b : Ratio) : Bool :=
  a.num * b.den ≤ b.num * a.den

/-- The distance between two numbers. -/
def Ratio.distance (a b : Ratio) : Ratio :=
  let x := a.num * b.den
  let y := b.num * a.den
  ⟨(x - y) + (y - x), a.den * b.den⟩

def Ratio.scaled (n : Nat) (base : Nat) (exponent : Int) : Ratio :=
  if exponent < 0 then ⟨n, Nat.pow base exponent.natAbs⟩ else ⟨n * Nat.pow base exponent.natAbs, 1⟩

/-- The numbers that round to a float lie from `low` to `high`, with the ends if `closed`. -/
structure Interval where
  value : Ratio
  low : Ratio
  high : Ratio
  closed : Bool

def Interval.ofBinary (b : Binary) : Interval where
  value := .scaled (4 * b.mantissa) 2 (b.exponent - 2)
  low := .scaled (4 * b.mantissa - if b.atBinade then 1 else 2) 2 (b.exponent - 2)
  high := .scaled (4 * b.mantissa + 2) 2 (b.exponent - 2)
  closed := b.mantissa % 2 = 0

def Interval.contains (i : Interval) (x : Ratio) : Bool :=
  if i.closed then i.low.le x && x.le i.high else !x.le i.low && !i.high.le x

/-- The number of decimal places in front of the point of a positive number. Below one it is minus
the number of zeros that follow the point, of which a float has at most 324. -/
def wholePlaces (x : Ratio) : Int :=
  let whole := x.num / x.den
  if 0 < whole then (Nat.toDigits 10 whole).length
  else
    -((List.range 330).takeWhile fun k => x.num * Nat.pow 10 (k + 1) < x.den).length

/-- The neighbour of the number on the grid of `digits` significant digits that reads back. -/
def onGrid? (i : Interval) (places : Int) (digits : Nat) : Option (Nat × Int) :=
  let step := places - digits
  let below :=
    if step < 0 then i.value.num * Nat.pow 10 step.natAbs / i.value.den
    else i.value.num / (i.value.den * Nat.pow 10 step.natAbs)
  let at_ (n : Nat) : Ratio := .scaled n 10 step
  let nearer :=
    if ((at_ below).distance i.value).le ((at_ (below + 1)).distance i.value)
    then [below, below + 1] else [below + 1, below]
  (nearer.find? fun n => i.contains (at_ n)).map fun n => (n, step)

/-- The shortest decimal `n * 10 ^ e` that reads back as a positive float. -/
def shortest (b : Binary) : Nat × Int :=
  let i := Interval.ofBinary b
  let places := wholePlaces i.value
  (((List.range 17).findSome? fun k => onGrid? i places (k + 1))).getD (b.mantissa, b.exponent)

/-- Digits with a point `-exponent` places before their end, and at least one digit in front. -/
def positional (digits : Text) (exponent : Int) : Text :=
  if 0 ≤ exponent then digits ++ List.replicate exponent.natAbs '0'
  else
    let fraction := exponent.natAbs
    let padded := List.replicate (fraction + 1 - digits.length) '0' ++ digits
    let cut := padded.length - fraction
    padded.take cut ++ '.' :: padded.drop cut

/-- A float in positional notation, always with a point. -/
def format (x : Float) : Text :=
  if x.isNaN then "NaN".toList
  else
    let bits := x.toBits.toNat
    let magnitude := bits % Nat.pow 2 63
    let sign : Text := if bits = magnitude then [] else ['-']
    if x.isInf then sign ++ "inf".toList
    else if magnitude = 0 then sign ++ "0.0".toList
    else
      let (n, e) := shortest (.ofBits magnitude)
      let text := positional (Text.ofNat n) e
      sign ++ if text.any (· == '.') then text else text ++ ".0".toList

end ComponentTags.Decimal
