import Mathlib
import ComponentTags.Proofs.Call.Value

/-!
# Quoted values, keys and names

Escapes are first taken out of a value and then put in when it is quoted. The literal that comes out
is read as the value without its escaped quotes, whatever follows it: no quote of the value ends it
early, and no control character stands in it as it is. Keys and names are quoted as they are.
-/

namespace ComponentTags

namespace Text

/-- Every occurrence of a text is replaced, from the left on. -/
inductive Replaced (old new : Text) : Text → Text → Prop
  | nil : Replaced old new [] []
  | found {s t : Text} (h : Replaced old new s t) : Replaced old new (old ++ s) (new ++ t)
  | kept {c : Char} {s t : Text} (hc : ¬old <+: c :: s) (h : Replaced old new s t) :
      Replaced old new (c :: s) (c :: t)

/-! ## Backslashes at the end -/

/-- How many backslashes stand at the end. -/
def endingBackslashes (s : Text) : Nat :=
  (s.rtakeWhile (· = '\\')).length

theorem endingBackslashes_append_cons {c : Char} (hc : c ≠ '\\') (s t : Text) :
    endingBackslashes (s ++ c :: t) = endingBackslashes t := by
  have hstop : List.takeWhile (· = '\\') (c :: s.reverse) = [] := by simp [hc]
  simp only [endingBackslashes, List.rtakeWhile, List.length_reverse, List.reverse_append,
    List.reverse_cons, List.append_assoc, List.singleton_append, List.takeWhile_append, hstop,
    List.append_nil]
  split
  · next h => rw [h, List.length_reverse]
  · rfl

theorem odd_endingBackslashes_pair (s : Text) :
    Odd (endingBackslashes ('\\' :: '\\' :: s)) ↔ Odd (endingBackslashes s) := by
  have hpair : List.takeWhile (· = '\\') ['\\', '\\'] = ['\\', '\\'] := rfl
  simp only [endingBackslashes, List.rtakeWhile, List.length_reverse, List.reverse_cons,
    List.append_assoc, List.singleton_append, List.takeWhile_append, hpair]
  split
  · next h => simp [h, Nat.odd_add]
  · rfl

/-! ## Escaped characters -/

theorem hexValue?_hexDigit {n : Nat} (h : n < 16) : hexValue? (hexDigit n) = some n := by
  have hdigits : ∀ n < 16, hexValue? (hexDigit n) = some n := by decide
  exact hdigits n h

/-- The escape of a control character is read as that character. -/
theorem readUnicodeEscape_control {c : Char} (h : c.toNat < 32) (rest : Text) :
    readUnicodeEscape ('0' :: '0' :: hexDigit (c.toNat / 16) :: hexDigit (c.toNat % 16) :: rest) =
      some (c, rest) := by
  have hzero : hexValue? '0' = some 0 := rfl
  have hhigh := hexValue?_hexDigit (n := c.toNat / 16) (by omega)
  have hlow := hexValue?_hexDigit (n := c.toNat % 16) (by omega)
  have hcode : ((0 * 16 + 0) * 16 + c.toNat / 16) * 16 + c.toNat % 16 = c.toNat := by omega
  have hread : readHex4 ('0' :: '0' :: hexDigit (c.toNat / 16) :: hexDigit (c.toNat % 16) :: rest) =
      some (c.toNat, rest) := by
    simp only [readHex4, hzero, hhigh, hlow, bind, Option.bind, hcode]
  have hplain : ¬ 0xDC00 ≤ c.toNat ∧ ¬ 0xD800 ≤ c.toNat := by omega
  simp [readUnicodeEscape, hread, hplain, Char.ofNat_toNat]

/-- A character stands in a literal as it is, or as a backslash and what is read after it. -/
inductive Escaped (c : Char) : Text → Prop
  | plain (hquote : c ≠ '"') (hslash : c ≠ '\\') (hcontrol : 32 ≤ c.toNat) : Escaped c [c]
  | slashed {first : Char} {more : Text}
      (hread : ∀ rest, readEscape (first :: more ++ rest) = some (c, rest))
      (hfirst : 32 ≤ first.toNat)
      (hmore : ∀ x ∈ more, x ≠ '"' ∧ x ≠ '\\' ∧ 32 ≤ x.toNat) :
      Escaped c ('\\' :: first :: more)

theorem hexDigit_plain {n : Nat} (h : n < 16) :
    hexDigit n ≠ '"' ∧ hexDigit n ≠ '\\' ∧ 32 ≤ (hexDigit n).toNat := by
  have hdigits : ∀ n < 16, hexDigit n ≠ '"' ∧ hexDigit n ≠ '\\' ∧ 32 ≤ (hexDigit n).toNat := by
    decide
  exact hdigits n h

theorem escaped_escape (c : Char) : Escaped c (escape c) := by
  have hsingle {d first : Char} (hd : d = c)
      (hread : ∀ rest, readEscape (first :: rest) = some (d, rest)) (hfirst : 32 ≤ first.toNat) :
      Escaped c ['\\', first] :=
    .slashed (hd ▸ hread) hfirst (by simp)
  have hcode {n : Nat} (h : c.toNat = n) : Char.ofNat n = c := by rw [← h, Char.ofNat_toNat]
  unfold escape
  split
  · next h => exact hsingle h.symm (fun _ => rfl) (by decide)
  · next hquote =>
    split
    · next h => exact hsingle h.symm (fun _ => rfl) (by decide)
    · next hslash =>
      split
      · next h => exact hsingle h.symm (fun _ => rfl) (by decide)
      split
      · next h => exact hsingle h.symm (fun _ => rfl) (by decide)
      split
      · next h => exact hsingle h.symm (fun _ => rfl) (by decide)
      split
      · next h => exact hsingle (hcode h) (fun _ => rfl) (by decide)
      split
      · next h => exact hsingle (hcode h) (fun _ => rfl) (by decide)
      split
      · next h =>
        refine .slashed (readUnicodeEscape_control h) (by decide) ?_
        simpa using ⟨hexDigit_plain (by omega), hexDigit_plain (by omega)⟩
      · next hcontrol => exact .plain hquote hslash (Nat.le_of_not_lt hcontrol)

namespace Escaped

variable {c : Char} {s : Text}

theorem le_toNat (h : Escaped c s) : ∀ x ∈ s, 32 ≤ x.toNat := by
  cases h with
  | plain _ _ hcontrol => simpa using hcontrol
  | slashed _ hfirst hmore =>
    simp only [List.forall_mem_cons]
    exact ⟨by decide, hfirst, fun x hx => (hmore x hx).2.2⟩

theorem unquote_append (h : Escaped c s) (rest : Text) :
    unquote (s ++ rest) = (unquote rest).map fun read => (c :: read.1, read.2) := by
  cases h with
  | plain hquote hslash hcontrol =>
    rw [List.singleton_append, unquote]
    · simp [Nat.not_lt.2 hcontrol]
    · simpa using hquote
    · simpa using hslash
  | slashed hread =>
    rw [List.cons_append, unquote]
    split
    · next hnone => exact absurd (hnone.symm.trans (hread rest)) (by simp)
    · next hsome =>
      obtain ⟨rfl, rfl⟩ := Prod.mk.inj (Option.some.inj ((hread rest).symm.trans hsome))
      rfl

/-- The backslashes before what follows a character do not change in parity when the character is
put in front. -/
theorem odd_endingBackslashes_append (h : Escaped c s) {t : Text} (ht : Odd (endingBackslashes t)) :
    Odd (endingBackslashes (s ++ t)) := by
  cases h with
  | plain _ hslash _ => exact (endingBackslashes_append_cons hslash [] t).symm ▸ ht
  | @slashed first more _ _ hmore =>
    rcases List.eq_nil_or_concat more with rfl | ⟨init, last, rfl⟩
    · by_cases hfirst : first = '\\'
      · subst hfirst
        exact (odd_endingBackslashes_pair t).2 ht
      · exact (endingBackslashes_append_cons hfirst ['\\'] t).symm ▸ ht
    · have hlast : last ≠ '\\' := (hmore last (by simp)).2.1
      have hsplit : ('\\' :: first :: init.concat last) ++ t =
          ('\\' :: first :: init) ++ last :: t := by simp
      rw [hsplit, endingBackslashes_append_cons hlast]
      exact ht

/-- A quote stands in the escape of a quote or behind the whole character. -/
theorem exists_of_append_eq (h : Escaped c s) {rest before after : Text}
    (hsplit : s ++ rest = before ++ '"' :: after) :
    before = ['\\'] ∨ ∃ t, before = s ++ t ∧ rest = t ++ '"' :: after := by
  rcases List.append_eq_append_iff.1 hsplit with ⟨t, rfl, hrest⟩ | ⟨t, hs, hquote⟩
  · exact .inr ⟨t, rfl, hrest⟩
  cases t with
  | nil => exact .inr ⟨[], by simpa using hs.symm, by simpa using hquote.symm⟩
  | cons d t =>
    obtain rfl : '"' = d := (List.cons.inj hquote).1
    left
    cases h with
    | plain hne _ _ =>
      have hmem : '"' ∈ [c] := hs ▸ by simp
      exact absurd (List.mem_singleton.1 hmem).symm hne
    | @slashed first more _ _ hmore =>
      -- the quote cannot be among the digits of an escape
      match before, hs with
      | [], hs => exact absurd (List.cons.inj hs).1 (by decide)
      | [e], hs => rw [← (List.cons.inj hs).1]
      | e :: e' :: before, hs =>
        have hmem : '"' ∈ more := (List.cons.inj (List.cons.inj hs).2).2 ▸ by simp
        exact absurd rfl (hmore _ hmem).1

end Escaped

/-! ## Literals -/

/-- A quoted text that denotes `value`. -/
structure Denotes (literal value : Text) : Prop where
  /-- Every quote between the two ends is escaped. -/
  delimited : ∃ inner, literal = '"' :: inner ++ ['"'] ∧
    ∀ before after, inner = before ++ '"' :: after → Odd (endingBackslashes before)
  noControl : ∀ c ∈ literal, 32 ≤ c.toNat
  /-- It is read up to its end, whatever follows. -/
  read : ∃ body, literal = '"' :: body ∧
    ∀ after, unquote (body ++ after) = some (value, after)

theorem odd_endingBackslashes_of_escape {s before after : Text}
    (h : s.flatMap escape = before ++ '"' :: after) : Odd (endingBackslashes before) := by
  induction s generalizing before with
  | nil => simp at h
  | cons c s ih =>
    rw [List.flatMap_cons] at h
    rcases (escaped_escape c).exists_of_append_eq h with rfl | ⟨t, rfl, hrest⟩
    · decide
    · exact (escaped_escape c).odd_endingBackslashes_append (ih hrest)

theorem unquote_flatMap_escape (s after : Text) :
    unquote (s.flatMap escape ++ '"' :: after) = some (s, after) := by
  induction s with
  | nil => rw [List.flatMap_nil, List.nil_append, unquote]
  | cons c s ih =>
    rw [List.flatMap_cons, List.append_assoc, (escaped_escape c).unquote_append, ih]
    rfl

theorem denotes_quote (s : Text) : Denotes (quote s) s where
  delimited := ⟨s.flatMap escape, rfl, fun _ _ => odd_endingBackslashes_of_escape⟩
  noControl := by
    intro c hc
    simp only [quote, List.cons_append, List.mem_cons, List.mem_append, List.mem_flatMap,
      List.not_mem_nil, or_false] at hc
    rcases hc with rfl | ⟨d, -, hc⟩ | rfl
    · decide
    · exact (escaped_escape d).le_toNat c hc
    · decide
  read := by
    refine ⟨s.flatMap escape ++ ['"'], rfl, fun after => ?_⟩
    rw [List.append_assoc]
    exact unquote_flatMap_escape s after

end Text

namespace Call

open Text (Replaced Denotes)

/-! ## Values without their escapes -/

/-- Taking the escapes out of a value is replacing every escaped quote. -/
theorem replaced_iff {q : Char} {s t : Text} : Replaced ['\\', q] [q] s t ↔ unescape q s = t := by
  constructor
  · intro h
    induction h with
    | nil => rfl
    | found _ ih => simp [unescape, ih]
    | @kept c s t hc _ ih =>
      cases s with
      | nil => simpa [unescape] using ih
      | cons d s =>
        rw [unescape, if_neg, ih]
        rintro ⟨rfl, rfl⟩
        exact hc (by simp)
  · rintro rfl
    fun_induction unescape q s with
    | case1 => exact .nil
    | case2 c => exact .kept (by simp) .nil
    | case3 c d s h ih =>
      obtain ⟨rfl, rfl⟩ := h
      exact .found ih
    | case4 c d s h ih =>
      refine .kept (fun hstart => h ?_) ih
      simp only [List.cons_prefix_cons] at hstart
      exact ⟨hstart.1.symm, hstart.2.1.symm⟩

/-- A value that is no single expression becomes a literal. -/
theorem valueExpression_eq_quote {value : Text}
    (h : ¬∃ e, valueExpression value = '(' :: e ++ [')']) :
    valueExpression value = Text.quote (unescape '\'' (unescape '"' value)) := by
  unfold valueExpression at h ⊢
  split
  · next e he =>
    rw [he] at h
    exact absurd ⟨e, rfl⟩ h
  · rfl

/-- The parts of a call that are quoted, and what they denote: the name of the component, the
identifier of the block, and the keys of the attributes. -/
structure Quotes (number : Nat) (block : Block) (call name id : Text) (entries : List Text) :
    Prop where
  call_eq : call = functionName ++ '(' :: name ++ ", ".toList ++
    ('\x7b' :: Text.join ", ".toList entries ++ ['\x7d']) ++ ", id=".toList ++ id
  name : Denotes name (Text.lower block.name)
  id : Denotes id (identifier block.name number)
  entries : List.Forall₂ (fun a entry => ∃ key, Denotes key a.1 ∧
    entry = key ++ ": ".toList ++ valueExpression a.2) block.attributes entries

theorem exists_quotes (number : Nat) (block : Block) :
    ∃ name id entries, Quotes number block (opening number block) name id entries := by
  refine ⟨Text.quote (Text.lower block.name), Text.quote (identifier block.name number),
    block.attributes.map attributeMap.entry, rfl, Text.denotes_quote _, Text.denotes_quote _, ?_⟩
  rw [List.forall₂_map_right_iff, List.forall₂_same]
  intro a _
  exact ⟨Text.quote a.1, Text.denotes_quote _, rfl⟩

theorem opening_infix_ofBlock (number : Nat) (block : Block) :
    opening number block <:+: ofBlock number block := by
  have houtput (arguments : Text) :
      opening number block <:+: Delimited.output (opening number block ++ arguments) :=
    ⟨['\x7b', '\x7b', ' '], arguments ++ [' ', '\x7d', '\x7d'], by simp [Delimited.output]⟩
  unfold ofBlock
  split
  · exact houtput _
  · rw [List.append_assoc, List.append_assoc]
    exact (houtput _).trans (List.suffix_append ..).isInfix

/-- A value that is not passed live becomes one literal, which denotes the value with every `\"`
replaced by `"` and then every `\'` by `'`. The names and keys that a call quotes are denoted
as they are. -/
theorem literals_of_call (number : Nat) (block : Block) :
    (∀ value, (¬∃ e, valueExpression value = '(' :: e ++ [')']) →
      ∃ once twice, Replaced ['\\', '"'] ['"'] value once ∧
        Replaced ['\\', '\''] ['\''] once twice ∧ Denotes (valueExpression value) twice) ∧
    ∃ call name id entries, call <:+: ofBlock number block ∧
      Quotes number block call name id entries := by
  constructor
  · intro value h
    rw [valueExpression_eq_quote h]
    exact ⟨_, _, replaced_iff.2 rfl, replaced_iff.2 rfl, Text.denotes_quote _⟩
  · obtain ⟨name, id, entries, h⟩ := exists_quotes number block
    exact ⟨_, name, id, entries, opening_infix_ofBlock number block, h⟩

/-- A backslash in front of a quote goes, one in front of another backslash stays, and a line end
becomes an escape. -/
theorem literals_of_call_mixedEscapes :
    (¬∃ e, valueExpression "it\\'s \\\"x\\\"\\\\\n".toList = '(' :: e ++ [')']) ∧
      valueExpression "it\\'s \\\"x\\\"\\\\\n".toList =
        "\"it's \\\"x\\\"\\\\\\\\\\n\"".toList ∧
      Denotes (valueExpression "it\\'s \\\"x\\\"\\\\\n".toList) "it's \"x\"\\\\\n".toList := by
  have hliteral : valueExpression "it\\'s \\\"x\\\"\\\\\n".toList =
      "\"it's \\\"x\\\"\\\\\\\\\\n\"".toList := by decide
  have hvalue : ¬∃ e, valueExpression "it\\'s \\\"x\\\"\\\\\n".toList = '(' :: e ++ [')'] := by
    rintro ⟨e, he⟩
    exact absurd (List.cons.inj (hliteral.symm.trans he)).1 (by decide)
  obtain ⟨once, twice, honce, htwice, hdenotes⟩ :=
    (literals_of_call 1 (.ofSelfClosing ⟨['X'], .selfClosing, [], ⟨0, 4⟩, 1⟩)).1 _ hvalue
  rw [replaced_iff] at honce htwice
  have hread : twice = "it's \"x\"\\\\\n".toList := by
    rw [← htwice, ← honce]
    decide
  exact ⟨hvalue, hliteral, hread ▸ hdenotes⟩

end Call
end ComponentTags
