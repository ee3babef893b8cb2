import ComponentTags.Text.Basic

/-!
# Spans

A span is a range of byte offsets of a text, closed at `start` and open at `stop`.
-/

namespace ComponentTags

structure Span where
  start : Nat
  stop : Nat
deriving DecidableEq, Repr

namespace Span

def length (s : Span) : Nat :=
  s.stop - s.start

def isEmpty (s : Span) : Bool :=
  s.start == s.stop

/-- Whether `t` lies inside `s`. -/
def contains (s t : Span) : Bool :=
  s.start ≤ t.start && t.stop ≤ s.stop

def describe (s : Span) : Text :=
  Text.ofNat s.start ++ ['.', '.'] ++ Text.ofNat s.stop

/-- The part of `source` that the span covers. -/
def of (s : Span) (source : Text) : Text :=
  Text.slice s.start s.stop source

end Span

end ComponentTags
