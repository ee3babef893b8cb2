import ComponentTags.Text.Basic

/-!
# Readers

A reader takes something from the front of a list of items and leaves the rest, or fails. Repetition
ends with the first item that cannot be read, and never runs longer than the list it is given.
-/

namespace ComponentTags

abbrev Reader (σ α : Type) := StateT (List σ) Option α

namespace Reader

variable {σ α β : Type}

def fail : Reader σ α :=
  fun _ => none

def item : Reader σ σ
  | [] => none
  | a :: rest => some (a, rest)

/-- The next item, left in place. -/
def peek? : Reader σ (Option σ) :=
  fun s => some (s.head?, s)

def satisfy (p : σ → Bool) : Reader σ σ
  | [] => none
  | a :: rest => if p a then some (a, rest) else none

/-- Takes the items in front that are in a class. -/
def takeWhile (p : σ → Bool) : Reader σ (List σ) :=
  fun s => some (s.takeWhile p, s.dropWhile p)

def takeWhile1 (p : σ → Bool) : Reader σ (List σ) := do
  let taken ← takeWhile p
  if taken.isEmpty then fail else pure taken

def exactly [BEq σ] : List σ → Reader σ Unit
  | [] => pure ()
  | a :: rest => do
    let _ ← satisfy (· == a)
    exactly rest

/-- Whether `r` can read here. Nothing is taken if it cannot. -/
def accepts (r : Reader σ α) : Reader σ Bool :=
  fun s =>
    match r s with
    | some (_, rest) => some (true, rest)
    | none => some (false, s)

def atMost (r : Reader σ α) : Nat → Reader σ (List α)
  | 0 => pure []
  | n + 1 => do
    match ← optional r with
    | none => pure []
    | some a => return a :: (← atMost r n)

/-- Reads as often as possible. -/
def many (r : Reader σ α) : Reader σ (List α) :=
  fun s => atMost r s.length s

def sepEndByAtMost (r : Reader σ α) (separator : Reader σ β) : Nat → Reader σ (List α)
  | 0 => pure []
  | n + 1 => do
    match ← optional r with
    | none => pure []
    | some a =>
      if ← accepts separator then return a :: (← sepEndByAtMost r separator n) else return [a]

/-- Reads items with a separator between them, and perhaps one after the last. -/
def sepEndBy (r : Reader σ α) (separator : Reader σ β) : Reader σ (List α) :=
  fun s => sepEndByAtMost r separator s.length s

/-- The first result at any place of the list. -/
def first? (r : Reader σ α) : List σ → Option α
  | [] => (r []).map Prod.fst
  | a :: rest =>
    match r (a :: rest) with
    | some (x, _) => some x
    | none => first? r rest

/-- The results at all places after the first `skipped` items, where the search goes on after what
was read. A result that takes nothing counts as one item. -/
def allAfter (r : Reader σ α) (skipped : Nat) : List σ → List α
  | [] => []
  | a :: rest =>
    match skipped with
    | skipped + 1 => allAfter r skipped rest
    | 0 =>
      match r (a :: rest) with
      | some (x, after) => x :: allAfter r (rest.length - after.length) rest
      | none => allAfter r 0 rest

/-- The results at all places, none of which overlap. -/
def all (r : Reader σ α) (s : List σ) : List α :=
  allAfter r 0 s

/-- The result on a list that is read to its end. -/
def run? (r : Reader σ α) (s : List σ) : Option α :=
  match r s with
  | some (a, []) => some a
  | _ => none

end Reader

end ComponentTags
