import ComponentTags.Text.Basic

/-!
# Glob patterns

Patterns for paths, matched byte by byte against the UTF-8 form. `?` is any byte, `*` any number of
bytes, `**` whole folders, `[…]` one byte of a class and `{…,…}` a choice. `accepts` decides a match
by following the pattern, with the rest of the pattern as what the rest of the path must satisfy.
-/

namespace ComponentTags

abbrev Bytes := List UInt8

/-- The UTF-8 form of a text. -/
def Text.bytes (s : Text) : Bytes :=
  s.flatMap String.utf8EncodeChar

namespace Glob

inductive Part where
  | char (c : Char)
  | anyByte
  | anyBytes
  /-- The part `**/` in front: nothing, or folders. -/
  | leadingFolders
  /-- The part `/**` at the end: everything inside a folder. -/
  | contents
  /-- The part `/**/`: one separator, or folders between two. -/
  | innerFolders
  | oneOf (negated : Bool) (ranges : List (UInt8 × UInt8))
  /-- One of several branches. Without branches it matches nothing but the empty text. -/
  | choice (branches : List (List Part))
deriving Inhabited

def slash : UInt8 := 47

/-- What remains of `s` after each of its first parts, from all of it down to nothing. -/
def remainders : Bytes → List Bytes
  | [] => [[]]
  | b :: s => (b :: s) :: remainders s

/-- What remains after each separator of `s`. -/
def afterSlashes (s : Bytes) : List Bytes :=
  (remainders s).filterMap fun
    | b :: rest => if b = slash then some rest else none
    | [] => none

def stripBytes? : Bytes → Bytes → Option Bytes
  | [], s => some s
  | b :: bs, c :: s => if b = c then stripBytes? bs s else none
  | _ :: _, [] => none

mutual

/-- Whether some first part of `s` matches and the rest satisfies `next`. -/
def Part.accepts (next : Bytes → Bool) (s : Bytes) : Part → Bool
  | .char c => (stripBytes? (Text.bytes [c]) s).any next
  | .anyByte =>
    match s with
    | [] => false
    | _ :: rest => next rest
  | .anyBytes => (remainders s).any next
  | .leadingFolders => next s || (afterSlashes s).any next
  | .contents =>
    match s with
    | b :: rest => b == slash && (remainders rest).any next
    | [] => false
  | .innerFolders =>
    match s with
    | b :: rest => b == slash && (next rest || (afterSlashes rest).any next)
    | [] => false
  | .oneOf negated ranges =>
    match s with
    | [] => false
    | b :: rest => (ranges.any fun r => r.1 ≤ b && b ≤ r.2) != negated && next rest
  | .choice [] => next s
  | .choice (branch :: branches) => acceptsAll next s branch || acceptsAny next s branches

def acceptsAll (next : Bytes → Bool) (s : Bytes) : List Part → Bool
  | [] => next s
  | part :: parts => part.accepts (fun rest => acceptsAll next rest parts) s

def acceptsAny (next : Bytes → Bool) (s : Bytes) : List (List Part) → Bool
  | [] => false
  | branch :: branches => acceptsAll next s branch || acceptsAny next s branches

end

/-! ## Reading patterns -/

/-- A choice that is still open: the branches before the current one and what stood before it. -/
structure Frame where
  branches : List (List Part)
  outer : List Part

structure ParseState where
  /-- The parts of the current branch, the latest first. -/
  parts : List Part := []
  frames : List Frame := []
  /-- The character before the current one. -/
  previous : Option Char := none

def ParseState.push (st : ParseState) (last : Char) (parts : List Part) : ParseState :=
  { st with parts := parts ++ st.parts, previous := some last }

/-- The bytes that a range of a class stands for. A character outside ASCII counts by its bytes, so
a range runs from the last byte of its first character to the first byte of its last one. -/
def rangeBytes (range : Char × Char) : List (UInt8 × UInt8) :=
  let single (b : UInt8) := (b, b)
  let low := Text.bytes [range.1]
  let high := Text.bytes [range.2]
  if range.1 = range.2 then low.map single
  else
    match low.getLast?, high.head? with
    | some a, some b => low.dropLast.map single ++ [(a, b)] ++ high.tail.map single
    | _, _ => []

/-- Reads a class after its bracket and negation sign. `waiting` tells whether a `-` waits for the
end of its range. Returns the ranges, the latest first, and what follows the class. -/
def readClass (ranges : List (Char × Char)) (waiting : Bool) :
    Text → Option (List (Char × Char) × Text)
  | [] => none
  | c :: rest =>
    match ranges with
    | [] => readClass [(c, c)] false rest
    | (low, high) :: earlier =>
      if c = ']' then some (if waiting then ('-', '-') :: ranges else ranges, rest)
      else if waiting then
        if c < low then none else readClass ((low, c) :: earlier) false rest
      else if c = '-' then readClass ((low, high) :: earlier) true rest
      else readClass ((c, c) :: ranges) false rest

theorem readClass_length {ranges found : List (Char × Char)} {waiting : Bool} {s rest : Text}
    (h : readClass ranges waiting s = some (found, rest)) : rest.length < s.length := by
  induction s generalizing ranges waiting with
  | nil => simp [readClass] at h
  | cons c s ih =>
    unfold readClass at h
    simp only [List.length_cons]
    split at h
    · have := ih h; omega
    · split at h
      · simp only [Option.some.injEq, Prod.mk.injEq] at h
        obtain ⟨_, rfl⟩ := h
        omega
      · split at h
        · split at h
          · simp at h
          · have := ih h; omega
        · split at h
          · have := ih h; omega
          · have := ih h; omega

/-- The parts for `**` before `rest`, with what is left to read. It stands for folders only between
separators or the ends of the branch; elsewhere it is two single stars. -/
def readDoubleStar (st : ParseState) (rest : Text) : ParseState × Text :=
  let plain := (st.push '*' [.anyBytes, .anyBytes], rest)
  if st.parts.isEmpty then
    match rest with
    | [] => (st.push '*' [.leadingFolders], [])
    | c :: after => if c = '/' then (st.push '/' [.leadingFolders], after) else plain
  else if st.previous ≠ some '/' then plain
  else
    let merge (part : Part) : List Part :=
      match st.parts with
      | .leadingFolders :: _ => st.parts
      | .contents :: _ => st.parts
      | _ :: earlier => part :: earlier
      | [] => [part]
    match rest with
    | [] => ({ st with parts := merge .contents, previous := some '*' }, [])
    | c :: after =>
      if c = '/' then ({ st with parts := merge .innerFolders, previous := some '/' }, after)
      else if (c = ',' ∨ c = '\x7d') ∧ !st.frames.isEmpty then
        ({ st with parts := merge .contents, previous := some '*' }, c :: after)
      else plain

theorem length_readDoubleStar_le (st : ParseState) (rest : Text) :
    (readDoubleStar st rest).2.length ≤ rest.length := by
  unfold readDoubleStar
  repeat' split
  all_goals first | exact Nat.le_refl _ | simp

/-- Whether the part is a choice without branches, which adds nothing to a pattern. -/
def Part.isSilent : Part → Bool
  | .choice [] => true
  | _ => false

/-- Closes the current choice. Branches that add nothing do not count. -/
def closeChoice (st : ParseState) : Option ParseState :=
  match st.frames with
  | [] => none
  | frame :: frames =>
    let branches := (st.parts.reverse :: frame.branches).reverse
    some
      { parts := .choice (branches.filter (!·.all Part.isSilent)) :: frame.outer
        frames, previous := some '\x7d' }

/-- Reads a pattern from `st` on. -/
def readParts (st : ParseState) (s : Text) : Option (List Part) :=
  match s with
  | [] => if st.frames.isEmpty then some st.parts.reverse else none
  | '?' :: rest => readParts (st.push '?' [.anyByte]) rest
  | '*' :: '*' :: rest =>
    have := length_readDoubleStar_le st rest
    readParts (readDoubleStar st rest).1 (readDoubleStar st rest).2
  | '*' :: rest => readParts (st.push '*' [.anyBytes]) rest
  | '[' :: rest =>
    let negated := rest.head? == some '!' || rest.head? == some '^'
    let inside := if negated then rest.tail else rest
    match h : readClass [] false inside with
    | none => none
    | some (ranges, after) =>
      have := readClass_length h
      have : inside.length ≤ rest.length := by simp only [inside]; split <;> simp
      readParts (st.push ']' [.oneOf negated (ranges.reverse.flatMap rangeBytes)]) after
  | '\x7b' :: rest =>
    readParts
      { parts := [], frames := ⟨[], st.parts⟩ :: st.frames, previous := some '\x7b' } rest
  | '\x7d' :: rest =>
    match closeChoice st with
    | none => none
    | some st => readParts st rest
  | ',' :: rest =>
    match st.frames with
    | [] => readParts (st.push ',' [.char ',']) rest
    | frame :: frames =>
      readParts
        { parts := []
          frames := { frame with branches := st.parts.reverse :: frame.branches } :: frames
          previous := some ',' } rest
  | '\\' :: c :: rest => readParts (st.push c [.char c]) rest
  | ['\\'] => none
  | c :: rest => readParts (st.push c [.char c]) rest
termination_by s.length
decreasing_by all_goals simp_all <;> omega

def Part.isChar : Part → Bool
  | .char _ => true
  | _ => false

def Part.isExactly (c : Char) : Part → Bool
  | .char d => c == d
  | _ => false

/-- Whether the pattern is looked up by the name of a file or its ending. -/
def byFileName (parts : List Part) : Bool :=
  let anywhere := parts matches .leadingFolders :: _
  let rest := if anywhere then parts.tail else parts
  let starred := rest matches .anyBytes :: _
  let ending := if starred then rest.tail else rest
  if ending.all Part.isChar then
    if starred then ending.length == 1 && ending.all (Part.isExactly '.')
    else anywhere && !ending.any (Part.isExactly '/')
  else parts.getLast?.any (Part.isExactly '.')

end Glob

/-- A valid pattern. -/
structure Glob where
  parts : List Glob.Part

namespace Glob

def read? (pattern : Text) : Option Glob :=
  (readParts {} pattern).map Glob.mk

/-- Whether the whole path matches. A path that ends in a dot has no file name to look up. -/
def accepts (g : Glob) (path : Text) : Bool :=
  match g.parts with
  | [.leadingFolders] => true
  | parts =>
    acceptsAll List.isEmpty path.bytes parts &&
      !(path.getLast? == some '.' && byFileName parts)

/-- The paths that a pattern accepts, if it is valid. -/
def accepts? (pattern : Text) : Option (Text → Bool) :=
  (read? pattern).map accepts

end Glob

end ComponentTags
