import ComponentTags.Token

/-!
# Tiling

The tokens of a text stand side by side. So a split of the token list is a split of the text, and
the tokens of the second part are those of the second text. The mark that opens a tag is always
followed by an identifier, which holds nothing but name characters.
-/

namespace ComponentTags

namespace Token

/-- The text that tokens stand for. -/
def textOf (tokens : List Token) : Text :=
  tokens.flatMap text

@[simp] theorem textOf_nil : textOf [] = [] := rfl

@[simp] theorem textOf_cons (t : Token) (tokens : List Token) :
    textOf (t :: tokens) = t.text ++ textOf tokens := rfl

@[simp] theorem textOf_append (tokens tokens' : List Token) :
    textOf (tokens ++ tokens') = textOf tokens ++ textOf tokens' :=
  List.flatMap_append

theorem textOf_listFrom (start line : Nat) (s : Text) : textOf (listFrom start line s) = s :=
  flatMap_text_listFrom start line s

theorem exists_of_listFrom_eq_cons {start line : Nat} {s : Text} {t : Token} {tokens : List Token}
    (h : listFrom start line s = t :: tokens) :
    ∃ c rest, s = c :: rest ∧ t = first start line c rest ∧
      tokens = listFrom (start + Text.byteSize t.text) (line + Text.lineBreaks t.text)
        (afterFirst c rest) := by
  cases s with
  | nil => simp [listFrom] at h
  | cons c rest =>
    rw [listFrom] at h
    obtain ⟨rfl, rfl⟩ := List.cons.inj h
    exact ⟨c, rest, rfl, rfl, rfl⟩

/-- The tokens after a first part are the tokens of the text after it. -/
theorem listFrom_eq_append {start line : Nat} {s : Text} {before after : List Token}
    (h : listFrom start line s = before ++ after) :
    ∃ rest, s = textOf before ++ rest ∧
      after = listFrom (start + Text.byteSize (textOf before))
        (line + Text.lineBreaks (textOf before)) rest := by
  induction before generalizing start line s with
  | nil => exact ⟨s, rfl, by simpa using h.symm⟩
  | cons t before ih =>
    obtain ⟨c, rest, rfl, rfl, hr⟩ := exists_of_listFrom_eq_cons h
    obtain ⟨rest', hs, ha⟩ := ih hr.symm
    refine ⟨rest', ?_, ?_⟩
    · rw [textOf_cons, List.append_assoc, ← hs, text_first_append]
    · simpa [Nat.add_assoc] using ha

/-- A token begins where the text before it ends. -/
theorem start_of_listFrom_eq {start line : Nat} {s : Text} {before after : List Token} {t : Token}
    (h : listFrom start line s = before ++ t :: after) :
    t.start = start + Text.byteSize (textOf before) ∧
      t.line = line + Text.lineBreaks (textOf before) := by
  obtain ⟨rest, _, hr⟩ := listFrom_eq_append h
  obtain ⟨c, rest', _, rfl, _⟩ := exists_of_listFrom_eq_cons hr.symm
  exact ⟨rfl, rfl⟩

theorem exists_first_of_mem {start line : Nat} {s : Text} {t : Token}
    (h : t ∈ listFrom start line s) : ∃ start line c rest, t = first start line c rest := by
  obtain ⟨before, after, h⟩ := List.append_of_mem h
  obtain ⟨rest, _, hr⟩ := listFrom_eq_append h
  obtain ⟨c, rest', _, ht, _⟩ := exists_of_listFrom_eq_cons hr.symm
  exact ⟨_, _, c, rest', ht⟩

/-! ## Kinds and texts -/

theorem isNameChar_of_isUpper {c : Char} (h : c.isUpper) : isNameChar c := by
  have alpha : c.isAlpha := show (c.isUpper || c.isLower) = true by simp [h]
  simp [isNameChar, Char.isAlphanum, alpha]

theorem not_isSpace_of_isUpper {c : Char} (h : c.isUpper) : isSpace c = false := by
  simp only [isSpace, Bool.or_eq_false_iff, decide_eq_false_iff_not]
  refine ⟨⟨⟨?_, ?_⟩, ?_⟩, ?_⟩ <;> rintro rfl <;> exact absurd h (by decide)

theorem lex_of_isNameChar {c : Char} {rest : Text} (hs : isSpace c = false)
    (hn : isNameChar c) :
    Kind.lex c rest = (.identifier, (rest.takeWhile isNameChar).length) := by
  simp [Kind.lex, hs, hn]

theorem isNameChar_of_lex_identifier {c : Char} {rest : Text} {n : Nat}
    (h : Kind.lex c rest = (.identifier, n)) :
    isNameChar c ∧ n = (rest.takeWhile isNameChar).length := by
  unfold Kind.lex at h
  split at h
  · simp at h
  · split at h
    · simp_all
    · split at h <;> (try split at h) <;> simp at h

theorem eq_of_lex_opens {c : Char} {rest : Text} {n : Nat} {kind : Kind}
    (h : Kind.lex c rest = (kind, n)) (hk : kind = .tagStart ∨ kind = .closingTagStart ∨
      kind = .leftAngle) : c = '<' := by
  unfold Kind.lex at h
  split at h
  · rcases hk with rfl | rfl | rfl <;> simp at h
  · split at h
    · rcases hk with rfl | rfl | rfl <;> simp at h
    · split at h <;> first
        | rfl
        | rcases hk with rfl | rfl | rfl <;> simp at h

theorem opensName_of_lex {c : Char} {rest : Text} {n : Nat} {kind : Kind}
    (h : Kind.lex c rest = (kind, n)) (hk : kind = .tagStart ∨ kind = .closingTagStart) :
    opensName (rest.drop n) := by
  unfold Kind.lex at h
  split at h
  · rcases hk with rfl | rfl <;> simp at h
  · split at h
    · rcases hk with rfl | rfl <;> simp at h
    · split at h
      · split at h <;> rcases hk with rfl | rfl <;> simp at h
        subst h
        simpa
      · split at h <;> rcases hk with rfl | rfl <;> simp at h
        subst h
        simpa
      all_goals rcases hk with rfl | rfl <;> simp at h

/-- An identifier is a run of name characters. -/
theorem isNameChar_of_mem_identifier {start line : Nat} {s : Text} {t : Token}
    (h : t ∈ listFrom start line s) (hk : t.kind = .identifier) {x : Char} (hx : x ∈ t.text) :
    isNameChar x := by
  obtain ⟨start, line, c, rest, rfl⟩ := exists_first_of_mem h
  obtain ⟨hc, hn⟩ := isNameChar_of_lex_identifier (Prod.ext hk rfl)
  simp only [first, hn, List.mem_cons] at hx
  rcases hx with rfl | hx
  · exact hc
  · rw [List.prefix_iff_eq_take.1 (List.takeWhile_prefix isNameChar) |>.symm] at hx
    exact List.all_eq_true.1 List.all_takeWhile x hx

/-- The mark of a tag is a `<`. -/
theorem mem_text_of_opens {start line : Nat} {s : Text} {t : Token}
    (h : t ∈ listFrom start line s) (hk : t.kind = .tagStart ∨ t.kind = .closingTagStart ∨
      t.kind = .leftAngle) : '<' ∈ t.text := by
  obtain ⟨start, line, c, rest, rfl⟩ := exists_first_of_mem h
  have := eq_of_lex_opens rfl hk
  simp [first, this]

/-- A tag name follows the mark that opens a tag. -/
theorem exists_isTagName_of_opens {start line : Nat} {s : Text} {t : Token} {tokens : List Token}
    (h : listFrom start line s = t :: tokens)
    (hk : t.kind = .tagStart ∨ t.kind = .closingTagStart) :
    ∃ name rest, tokens = name :: rest ∧ name.isTagName := by
  obtain ⟨c, rest, rfl, rfl, hr⟩ := exists_of_listFrom_eq_cons h
  have hn : opensName (afterFirst c rest) :=
    opensName_of_lex rfl hk
  cases ha : afterFirst c rest with
  | nil => simp [ha, opensName] at hn
  | cons d rest' =>
    rw [ha, opensName] at hn
    rw [ha, listFrom] at hr
    refine ⟨_, _, hr, ?_⟩
    simp [first, isTagName, opensName, hn,
      lex_of_isNameChar (not_isSpace_of_isUpper hn) (isNameChar_of_isUpper hn)]

end Token

end ComponentTags
