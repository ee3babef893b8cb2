import ComponentTags.Text.Basic

/-!
# Quoted text

Double quoted literals as they stand in a JSON document. `quote` writes the two delimiters, a
backslash escape for `"`, `\` and the control characters, and everything else as it is. `unquote`
reads a literal up to its closing delimiter and returns what follows it.
-/

namespace ComponentTags.Text

/-- The digits of hexadecimal numbers, lower case. -/
def hexDigit (n : Nat) : Char :=
  Nat.digitChar n

/-- The written form of one character inside a literal. -/
def escape (c : Char) : Text :=
  if c = '"' then ['\\', '"']
  else if c = '\\' then ['\\', '\\']
  else if c = '\n' then ['\\', 'n']
  else if c = '\r' then ['\\', 'r']
  else if c = '\t' then ['\\', 't']
  else if c.toNat = 8 then ['\\', 'b']
  else if c.toNat = 12 then ['\\', 'f']
  else if c.toNat < 32 then ['\\', 'u', '0', '0', hexDigit (c.toNat / 16), hexDigit (c.toNat % 16)]
  else [c]

/-- The literal that denotes `s`. -/
def quote (s : Text) : Text :=
  '"' :: s.flatMap escape ++ ['"']

def hexValue? (c : Char) : Option Nat :=
  if c.isDigit then some (c.toNat - 48)
  else if 'a' ≤ c ∧ c ≤ 'f' then some (c.toNat - 87)
  else if 'A' ≤ c ∧ c ≤ 'F' then some (c.toNat - 55)
  else none

/-- The number written by four hexadecimal digits, and what follows them. -/
def readHex4 : Text → Option (Nat × Text)
  | a :: b :: c :: d :: rest => do
    let a ← hexValue? a
    let b ← hexValue? b
    let c ← hexValue? c
    let d ← hexValue? d
    some (((a * 16 + b) * 16 + c) * 16 + d, rest)
  | _ => none

/-- The character written by the digits after `\u`. A high surrogate needs the low one after it. -/
def readUnicodeEscape (s : Text) : Option (Char × Text) := do
  let (high, rest) ← readHex4 s
  if 0xDC00 ≤ high && high ≤ 0xDFFF then none
  else if 0xD800 ≤ high && high ≤ 0xDBFF then
    match rest with
    | '\\' :: 'u' :: rest =>
      let (low, rest) ← readHex4 rest
      if 0xDC00 ≤ low && low ≤ 0xDFFF then
        some (Char.ofNat (0x10000 + (high - 0xD800) * 0x400 + (low - 0xDC00)), rest)
      else none
    | _ => none
  else some (Char.ofNat high, rest)

/-- The character written after a backslash. -/
def readEscape : Text → Option (Char × Text)
  | '"' :: rest => some ('"', rest)
  | '\\' :: rest => some ('\\', rest)
  | '/' :: rest => some ('/', rest)
  | 'b' :: rest => some (Char.ofNat 8, rest)
  | 'f' :: rest => some (Char.ofNat 12, rest)
  | 'n' :: rest => some ('\n', rest)
  | 'r' :: rest => some ('\r', rest)
  | 't' :: rest => some ('\t', rest)
  | 'u' :: rest => readUnicodeEscape rest
  | _ => none

theorem readHex4_length {s rest : Text} {n : Nat} (h : readHex4 s = some (n, rest)) :
    rest.length < s.length := by
  unfold readHex4 at h
  split at h
  · simp only [Option.bind_eq_bind, Option.bind_eq_some_iff, Option.some.injEq,
      Prod.mk.injEq] at h
    obtain ⟨_, _, _, _, _, _, _, _, _, rfl⟩ := h
    simp only [List.length_cons]
    omega
  · simp at h

theorem readUnicodeEscape_length {s rest : Text} {c : Char}
    (h : readUnicodeEscape s = some (c, rest)) : rest.length < s.length := by
  simp only [readUnicodeEscape, Option.bind_eq_bind, Option.bind_eq_some_iff] at h
  obtain ⟨⟨high, mid⟩, hm, h⟩ := h
  have h1 := readHex4_length hm
  dsimp only at h
  split at h
  · simp at h
  · split at h
    · split at h
      · obtain ⟨⟨low, last⟩, hl, h⟩ := Option.bind_eq_some_iff.1 h
        have h2 := readHex4_length hl
        dsimp only at h
        split at h
        · simp only [Option.some.injEq, Prod.mk.injEq] at h
          obtain ⟨_, rfl⟩ := h
          simp only [List.length_cons] at h1
          omega
        · simp at h
      · simp at h
    · simp only [Option.some.injEq, Prod.mk.injEq] at h
      obtain ⟨_, rfl⟩ := h
      exact h1

theorem readEscape_length {s rest : Text} {c : Char} (h : readEscape s = some (c, rest)) :
    rest.length < s.length := by
  unfold readEscape at h
  split at h <;> try (simp only [Option.some.injEq, Prod.mk.injEq] at h; obtain ⟨_, rfl⟩ := h; simp)
  · have := readUnicodeEscape_length h
    simp only [List.length_cons]
    omega
  · simp at h

/-- Reads the inside of a literal, after its opening delimiter. -/
def unquote (s : Text) : Option (Text × Text) :=
  match s with
  | [] => none
  | '"' :: rest => some ([], rest)
  | '\\' :: rest =>
    match h : readEscape rest with
    | none => none
    | some (c, rest') =>
      have := readEscape_length h
      (unquote rest').map fun (value, after) => (c :: value, after)
  | c :: rest =>
    if c.toNat < 32 then none
    else (unquote rest).map fun (value, after) => (c :: value, after)
termination_by s.length
decreasing_by all_goals simp_all <;> omega

theorem unquote_length {s rest value : Text} (h : unquote s = some (value, rest)) :
    rest.length < s.length := by
  fun_induction unquote s generalizing rest value with
  | case1 => simp at h
  | case2 => simp_all
  | case3 => simp at h
  | case4 tail c after hr _ ih =>
    obtain ⟨⟨v, r⟩, hv, he⟩ := Option.map_eq_some_iff.1 h
    cases he
    have := readEscape_length hr
    have := ih hv
    simp only [List.length_cons]
    omega
  | case5 => simp at h
  | case6 c tail _ _ _ ih =>
    obtain ⟨⟨v, r⟩, hv, he⟩ := Option.map_eq_some_iff.1 h
    cases he
    have := ih hv
    simp only [List.length_cons]
    omega

end ComponentTags.Text
