import ComponentTags.Text.Quoted

/-!
# Digits

Numbers written in a base of at most sixteen.
-/

namespace ComponentTags.Text

def isDigitOf (base : Nat) (c : Char) : Bool :=
  (hexValue? c).any (· < base)

/-- The number that digits write. -/
def natural (base : Nat) (digits : Text) : Nat :=
  digits.foldl (fun n c => n * base + (hexValue? c).getD 0) 0

/-- The number that a text writes if it consists of digits. -/
def natural? (base : Nat) (digits : Text) : Option Nat :=
  if !digits.isEmpty && digits.all (isDigitOf base) then some (natural base digits) else none

end ComponentTags.Text
