/-!
# Text and its measures

A text is a list of characters. Positions are counted in bytes of the UTF-8 form and lines in line
feeds. Both measures are additive, and a cut at the size of a first part returns that part.
-/

namespace ComponentTags

abbrev Text := List Char

namespace Text

/-- The number of bytes of the UTF-8 form. -/
def byteSize : Text → Nat
  | [] => 0
  | c :: s => c.utf8Size + byteSize s

def lineBreaks (s : Text) : Nat :=
  s.count '\n'

@[simp] theorem byteSize_nil : byteSize [] = 0 := rfl

@[simp] theorem byteSize_cons (c : Char) (s : Text) :
    byteSize (c :: s) = c.utf8Size + byteSize s := rfl

@[simp] theorem byteSize_append (s t : Text) : byteSize (s ++ t) = byteSize s + byteSize t := by
  induction s with
  | nil => simp
  | cons c s ih => simp [ih, Nat.add_assoc]

@[simp] theorem lineBreaks_nil : lineBreaks [] = 0 := rfl

@[simp] theorem lineBreaks_append (s t : Text) :
    lineBreaks (s ++ t) = lineBreaks s + lineBreaks t := by
  simp [lineBreaks]

theorem byteSize_eq_zero {s : Text} : byteSize s = 0 ↔ s = [] := by
  cases s with
  | nil => simp
  | cons c s => simp; have := c.utf8Size_pos; omega

/-! ## Cuts at byte offsets -/

/-- What follows the first `n` bytes. A character that the cut would split is dropped whole. -/
def dropBytes (n : Nat) : Text → Text
  | [] => []
  | c :: s => if n = 0 then c :: s else dropBytes (n - c.utf8Size) s

/-- The characters that begin in the first `n` bytes. -/
def takeBytes (n : Nat) : Text → Text
  | [] => []
  | c :: s => if n = 0 then [] else c :: takeBytes (n - c.utf8Size) s

/-- The text from byte `start` up to byte `stop`. -/
def slice (start stop : Nat) (s : Text) : Text :=
  takeBytes (stop - start) (dropBytes start s)

@[simp] theorem dropBytes_zero (s : Text) : dropBytes 0 s = s := by
  cases s <;> simp [dropBytes]

@[simp] theorem takeBytes_zero (s : Text) : takeBytes 0 s = [] := by
  cases s <;> simp [takeBytes]

@[simp] theorem dropBytes_append (s t : Text) : dropBytes (byteSize s) (s ++ t) = t := by
  induction s with
  | nil => simp
  | cons c s ih =>
    have := c.utf8Size_pos
    rw [List.cons_append, dropBytes, if_neg (by simp; omega)]
    simpa using ih

@[simp] theorem takeBytes_append (s t : Text) : takeBytes (byteSize s) (s ++ t) = s := by
  induction s with
  | nil => simp
  | cons c s ih =>
    have := c.utf8Size_pos
    rw [List.cons_append, takeBytes, if_neg (by simp; omega)]
    simpa using ih

theorem slice_append (s t u : Text) :
    slice (byteSize s) (byteSize s + byteSize t) (s ++ t ++ u) = t := by
  simp [slice, List.append_assoc]

/-! ## Pieces -/

theorem length_dropWhile_le (p : Char → Bool) (s : Text) : (s.dropWhile p).length ≤ s.length :=
  (List.dropWhile_sublist p).length_le

/-- The pieces between the occurrences of `separator`, of which there is at least one. -/
def split (separator : Char) : Text → List Text
  | [] => [[]]
  | c :: s =>
    match split separator s with
    | [] => [[c]]
    | piece :: pieces =>
      if c = separator then [] :: piece :: pieces else (c :: piece) :: pieces

/-- The pieces put back together with `separator` between them. -/
def join (separator : Text) : List Text → Text
  | [] => []
  | [piece] => piece
  | piece :: pieces => piece ++ separator ++ join separator pieces

theorem join_cons (separator piece : Text) {pieces : List Text} (h : pieces ≠ []) :
    join separator (piece :: pieces) = piece ++ separator ++ join separator pieces := by
  cases pieces with
  | nil => exact absurd rfl h
  | cons next rest => rfl

theorem split_ne_nil (separator : Char) (s : Text) : split separator s ≠ [] := by
  cases s with
  | nil => simp [split]
  | cons c s => unfold split; split <;> (try split) <;> simp

theorem split_cons (separator c : Char) (s : Text) :
    split separator (c :: s) =
      if c = separator then [] :: split separator s
      else (split separator s).modifyHead (c :: ·) := by
  rw [split]
  split
  · next h => exact absurd h (split_ne_nil separator s)
  · next h => simp [h]

theorem split_append_cons (separator : Char) (s t : Text) :
    split separator (s ++ separator :: t) = split separator s ++ split separator t := by
  induction s with
  | nil => simp [split_cons, split]
  | cons c s ih =>
    rw [List.cons_append, split_cons, split_cons, ih]
    split
    · rfl
    · obtain ⟨piece, rest, h⟩ := List.exists_cons_of_ne_nil (split_ne_nil separator s)
      rw [h]
      rfl

theorem split_of_notMem {separator : Char} {s : Text} (h : separator ∉ s) :
    split separator s = [s] := by
  induction s with
  | nil => rfl
  | cons c s ih =>
    rw [List.mem_cons, not_or] at h
    rw [split_cons, if_neg (Ne.symm h.1), ih h.2]
    rfl

/-- Texts that are joined are cut into all their pieces. -/
theorem split_join (separator : Char) {pieces : List Text} (h : pieces ≠ []) :
    split separator (join [separator] pieces) = pieces.flatMap (split separator) := by
  induction pieces with
  | nil => exact absurd rfl h
  | cons piece rest ih =>
    cases rest with
    | nil => simp [join]
    | cons next rest =>
      rw [join_cons _ _ (by simp), List.append_assoc, List.singleton_append, split_append_cons,
        ih (by simp)]
      rfl

theorem join_split (separator : Char) (s : Text) : join [separator] (split separator s) = s := by
  induction s with
  | nil => rfl
  | cons c s ih =>
    rw [split_cons]
    obtain ⟨piece, rest, h⟩ := List.exists_cons_of_ne_nil (split_ne_nil separator s)
    rw [h] at ih ⊢
    split
    · next hc =>
      subst hc
      rw [join_cons _ _ (by simp), ih]
      rfl
    · cases rest with
      | nil => simpa [join] using ih
      | cons next rest =>
        rw [join_cons _ _ (by simp)] at ih
        rw [List.modifyHead_cons, join_cons _ _ (by simp)]
        exact congrArg (c :: ·) ih

/-- Removes the characters of a class at the end. -/
def dropEndWhile (p : Char → Bool) (s : Text) : Text :=
  (s.reverse.dropWhile p).reverse

/-- Removes the characters of a class at both ends. -/
def stripWhile (p : Char → Bool) (s : Text) : Text :=
  dropEndWhile p (s.dropWhile p)

/-- What follows `beginning`, if the text begins with it. -/
def afterBeginning? (beginning s : Text) : Option Text :=
  if beginning.isPrefixOf s then some (s.drop beginning.length) else none

/-- What stands before `ending`, if the text ends in it. -/
def beforeEnding? (ending s : Text) : Option Text :=
  if ending.isSuffixOf s then some (s.take (s.length - ending.length)) else none

theorem stripWhile_sublist (p : Char → Bool) (s : Text) : (stripWhile p s).Sublist s := by
  have : (stripWhile p s).Sublist (s.dropWhile p) := by
    simpa [stripWhile, dropEndWhile] using
      (List.dropWhile_sublist p (l := (s.dropWhile p).reverse)).reverse
  exact this.trans (List.dropWhile_sublist p)

theorem afterBeginning?_eq_some_iff {beginning s rest : Text} :
    afterBeginning? beginning s = some rest ↔ s = beginning ++ rest := by
  constructor
  · intro h
    unfold afterBeginning? at h
    split at h
    · next hb =>
      cases h
      exact List.prefix_iff_eq_append.1 (List.isPrefixOf_iff_prefix.1 hb) |>.symm
    · cases h
  · rintro rfl
    simp [afterBeginning?]

theorem beforeEnding?_eq_some_iff {ending s rest : Text} :
    beforeEnding? ending s = some rest ↔ s = rest ++ ending := by
  constructor
  · intro h
    unfold beforeEnding? at h
    split at h
    · next he =>
      cases h
      exact List.suffix_iff_eq_append.1 (List.isSuffixOf_iff_suffix.1 he) |>.symm
    · cases h
  · rintro rfl
    simp [beforeEnding?]

theorem sublist_of_afterBeginning? {beginning s rest : Text}
    (h : afterBeginning? beginning s = some rest) : rest.Sublist s := by
  rw [afterBeginning?_eq_some_iff.1 h]
  exact List.sublist_append_right ..

theorem sublist_of_beforeEnding? {ending s rest : Text}
    (h : beforeEnding? ending s = some rest) : rest.Sublist s := by
  rw [beforeEnding?_eq_some_iff.1 h]
  exact List.sublist_append_left ..

/-- Replaces one character by another. -/
def substitute (old new : Char) (s : Text) : Text :=
  s.map fun c => if c = old then new else c

def contains (part : Text) : Text → Bool
  | [] => part.isEmpty
  | c :: s => part.isPrefixOf (c :: s) || contains part s

theorem contains_iff_infix {part s : Text} : contains part s ↔ part <:+: s := by
  induction s with
  | nil => simp [contains]
  | cons c s ih =>
    rw [contains, Bool.or_eq_true, ih, List.infix_cons_iff, List.isPrefixOf_iff_prefix]

end Text

/-- Decimal digits of a number. -/
def Text.ofNat (n : Nat) : Text :=
  (Nat.toDigits 10 n)

end ComponentTags
