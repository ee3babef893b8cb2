import ComponentTags.Token.Tiling

/-!
# Cuts

The tokens of a text do not depend on where the text stands, and they are found piece by piece: a
text can be cut at every place where no token looks across the cut. That holds before a character
that continues no token and after a `>`.
-/

namespace ComponentTags

/-! ## Places -/

/-- A place in a source: the byte offset and the line. -/
structure Place where
  offset : Nat
  line : Nat
deriving DecidableEq, Repr

namespace Place

/-- The place at which a source begins. -/
def first : Place := ⟨0, 1⟩

/-- The place after a text. -/
def past (p : Place) (s : Text) : Place :=
  ⟨p.offset + Text.byteSize s, p.line + Text.lineBreaks s⟩

@[simp] theorem past_nil (p : Place) : p.past [] = p := rfl

@[simp] theorem past_append (p : Place) (s t : Text) : p.past (s ++ t) = (p.past s).past t := by
  simp [past, Nat.add_assoc]

@[simp] theorem offset_past (p : Place) (s : Text) :
    (p.past s).offset = p.offset + Text.byteSize s := rfl

@[simp] theorem line_past (p : Place) (s : Text) :
    (p.past s).line = p.line + Text.lineBreaks s := rfl

/-- What a source holds from the place on is `rest`. -/
def Begins (p : Place) (rest source : Text) : Prop :=
  ∃ before, source = before ++ rest ∧ p.offset = Text.byteSize before

theorem begins_first (source : Text) : first.Begins source source :=
  ⟨[], rfl, rfl⟩

theorem Begins.past {p : Place} {s t source : Text} (h : p.Begins (s ++ t) source) :
    (p.past s).Begins t source := by
  obtain ⟨before, rfl, hp⟩ := h
  exact ⟨before ++ s, by simp, by simp [hp]⟩

theorem Begins.dropBytes {p : Place} {rest source : Text} (h : p.Begins rest source) :
    Text.dropBytes p.offset source = rest := by
  obtain ⟨before, rfl, hp⟩ := h
  rw [hp, Text.dropBytes_append]

theorem Begins.slice {p : Place} {s t source : Text} (h : p.Begins (s ++ t) source) :
    Text.slice p.offset (p.past s).offset source = s := by
  rw [Text.slice, h.dropBytes, offset_past, Nat.add_sub_cancel_left, Text.takeBytes_append]

end Place

namespace Token

/-! ## What a token depends on -/

/-- Whether the text begins with `/` and the capital letter of a tag name. -/
def opensEnd : Text → Bool
  | '/' :: after => opensName after
  | _ => false

theorem lex_angle (rest : Text) :
    Kind.lex '<' rest =
      if opensName rest then (.tagStart, 0)
      else if opensEnd rest then (.closingTagStart, 1)
      else (.leftAngle, 0) := by
  rcases rest with _ | ⟨d, rest⟩
  · rfl
  · by_cases hd : d = '/'
    · subst hd
      have : opensName ('/' :: rest) = false := rfl
      simp [Kind.lex, isSpace, isNameChar, Char.isAlphanum, this, opensEnd]
    · simp only [Kind.lex, opensEnd, show isSpace '<' = false from rfl,
        show isNameChar '<' = false from rfl]
      split <;> simp_all

theorem lex_slash (rest : Text) :
    Kind.lex '/' rest = if rest.head? = some '>' then (.selfClosing, 1) else (.slash, 0) := by
  cases rest with
  | nil => rfl
  | cons d rest =>
    by_cases hd : d = '>'
    · subst hd
      rfl
    · simp only [Kind.lex, show isSpace '/' = false from rfl,
        show isNameChar '/' = false from rfl]
      split <;> simp_all

theorem lex_backslash (rest : Text) :
    Kind.lex '\\' rest =
      if rest.head? = some '\'' then (.escapedSingleQuote, 1)
      else if rest.head? = some '"' then (.escapedDoubleQuote, 1)
      else (.backslash, 0) := by
  cases rest with
  | nil => rfl
  | cons d rest =>
    by_cases hs : d = '\''
    · subst hs
      rfl
    · by_cases hd : d = '"'
      · subst hd
        rfl
      · simp only [Kind.lex, show isSpace '\\' = false from rfl,
          show isNameChar '\\' = false from rfl]
        split <;> simp_all

/-- Other characters stand alone. -/
theorem lex_single {c : Char} (hs : isSpace c = false) (hn : isNameChar c = false) (ha : c ≠ '<')
    (hl : c ≠ '/') (hb : c ≠ '\\') (rest : Text) : Kind.lex c rest = Kind.lex c [] := by
  simp only [Kind.lex, hs, hn, Bool.false_eq_true, if_false]
  cases rest with
  | nil => rfl
  | cons d rest => split <;> simp_all

/-- What a token depends on besides its first character. -/
theorem lex_congr {rest rest' : Text} (hs : rest'.takeWhile isSpace = rest.takeWhile isSpace)
    (hn : rest'.takeWhile isNameChar = rest.takeWhile isNameChar)
    (ho : opensName rest' = opensName rest) (he : opensEnd rest' = opensEnd rest)
    (hh : ∀ d ∈ ['>', '\'', '"'], rest'.head? = some d ↔ rest.head? = some d) (c : Char) :
    Kind.lex c rest' = Kind.lex c rest := by
  by_cases hcs : isSpace c
  · simp [Kind.lex, hcs, hs]
  by_cases hcn : isNameChar c
  · simp [Kind.lex, hcs, hcn, hn]
  by_cases ha : c = '<'
  · rw [ha, lex_angle, lex_angle, ho, he]
  by_cases hl : c = '/'
  · rw [hl, lex_slash, lex_slash]
    simp [hh '>' (by simp)]
  by_cases hb : c = '\\'
  · rw [hb, lex_backslash, lex_backslash]
    simp [hh '\'' (by simp), hh '"' (by simp)]
  have single := lex_single (by simpa using hcs) (by simpa using hcn) ha hl hb
  rw [single rest, single rest']

/-! ## Tokens in another place -/

def moved (p : Place) (t : Token) : Token :=
  { t with start := p.offset + t.start, line := p.line + t.line }

@[simp] theorem kind_moved (p : Place) (t : Token) : (t.moved p).kind = t.kind := rfl

@[simp] theorem text_moved (p : Place) (t : Token) : (t.moved p).text = t.text := rfl

@[simp] theorem start_moved (p : Place) (t : Token) : (t.moved p).start = p.offset + t.start := rfl

@[simp] theorem line_moved (p : Place) (t : Token) : (t.moved p).line = p.line + t.line := rfl

@[simp] theorem stop_moved (p : Place) (t : Token) : (t.moved p).stop = p.offset + t.stop := by
  simp [stop, Nat.add_assoc]

theorem listFrom_moved (p : Place) (start line : Nat) (s : Text) :
    listFrom (p.offset + start) (p.line + line) s = (listFrom start line s).map (moved p) := by
  fun_induction listFrom start line s with
  | case1 => simp [listFrom]
  | case2 start line c rest token ih =>
    have hfirst : first (p.offset + start) (p.line + line) c rest = token.moved p := rfl
    rw [listFrom, hfirst, List.map_cons, ← ih, stop_moved, Nat.add_assoc]
    rfl

/-- The tokens of a text that stands in a place. -/
def listAt (p : Place) (s : Text) : List Token :=
  listFrom p.offset p.line s

/-- In every place they are those at the origin, moved. -/
theorem listAt_eq_map (p : Place) (s : Text) : listAt p s = (listFrom 0 0 s).map (moved p) :=
  listFrom_moved p 0 0 s

/-! ## Cutting -/

/-- No token of `s` changes when `t` follows. -/
def Cut (s t : Text) : Prop :=
  ∀ c rest, c :: rest <:+ s → Kind.lex c (rest ++ t) = Kind.lex c rest

theorem length_lex_le (c : Char) (rest : Text) : (Kind.lex c rest).2 ≤ rest.length := by
  have takeWhile_le (p : Char → Bool) : (rest.takeWhile p).length ≤ rest.length :=
    (List.takeWhile_prefix p).length_le
  unfold Kind.lex
  split
  · exact takeWhile_le isSpace
  · split
    · exact takeWhile_le isNameChar
    · split <;> (try split) <;> simp

theorem afterFirst_suffix (c : Char) (rest : Text) : afterFirst c rest <:+ c :: rest :=
  (List.drop_suffix ..).trans (List.suffix_cons ..)

theorem stop_first_add (start line : Nat) (c : Char) (rest : Text) :
    (first start line c rest).stop + Text.byteSize (afterFirst c rest) =
      start + Text.byteSize (c :: rest) := by
  rw [← text_first_append start line c rest, Text.byteSize_append, ← Nat.add_assoc]
  rfl

theorem newlines_first_add (start line : Nat) (c : Char) (rest : Text) :
    line + (first start line c rest).newlines + Text.lineBreaks (afterFirst c rest) =
      line + Text.lineBreaks (c :: rest) := by
  rw [← text_first_append start line c rest, Text.lineBreaks_append, ← Nat.add_assoc]
  rfl

theorem listFrom_cons_append {c : Char} {rest t : Text}
    (h : Kind.lex c (rest ++ t) = Kind.lex c rest) (start line : Nat) :
    listFrom start line (c :: rest ++ t) =
      first start line c rest ::
        listFrom (first start line c rest).stop (line + (first start line c rest).newlines)
          (afterFirst c rest ++ t) := by
  have hfirst : first start line c (rest ++ t) = first start line c rest := by
    simp only [first, h, List.take_append_of_le_length (length_lex_le c rest)]
  have hafter : afterFirst c (rest ++ t) = afterFirst c rest ++ t := by
    simp only [afterFirst, h, List.drop_append_of_le_length (length_lex_le c rest)]
  rw [List.cons_append, listFrom, hfirst, hafter]

theorem cut_afterFirst {c : Char} {rest t : Text} (h : Cut (c :: rest) t) :
    Cut (afterFirst c rest) t := by
  intro d rest' hd
  exact h d rest' (hd.trans (afterFirst_suffix c rest))

theorem listFrom_append {s t : Text} (h : Cut s t) (start line : Nat) :
    listFrom start line (s ++ t) =
      listFrom start line s ++
        listFrom (start + Text.byteSize s) (line + Text.lineBreaks s) t := by
  fun_induction listFrom start line s with
  | case1 => simp
  | case2 start line c rest token ih =>
    rw [listFrom_cons_append (h c rest (List.suffix_refl _)), ih (cut_afterFirst h),
      stop_first_add, newlines_first_add]
    rfl

theorem listAt_append {s t : Text} (h : Cut s t) (p : Place) :
    listAt p (s ++ t) = listAt p s ++ listAt (p.past s) t :=
  listFrom_append h p.offset p.line

theorem cut_nil (s : Text) : Cut s [] := by
  intro c rest _
  rw [List.append_nil]

/-- The characters that continue no token. -/
def isInert (c : Char) : Bool :=
  !(isSpace c || isNameChar c || c = '/' || c = '>' || c = '\'' || c = '"')

theorem not_isSpace_of_isInert {c : Char} (h : isInert c) : isSpace c = false := by
  simp_all [isInert]

theorem not_isNameChar_of_isInert {c : Char} (h : isInert c) : isNameChar c = false := by
  simp_all [isInert]

theorem not_opensName_of_isInert {c : Char} (h : isInert c) (s : Text) :
    opensName (c :: s) = false := by
  cases hu : c.isUpper with
  | false => exact hu
  | true => simpa [not_isNameChar_of_isInert h] using isNameChar_of_isUpper hu

theorem not_opensEnd_of_isInert {c : Char} (h : isInert c) (s : Text) :
    opensEnd (c :: s) = false := by
  have : c ≠ '/' := by
    rintro rfl
    cases h
  simp [opensEnd, this]

/-- Whether an end tag is opened is decided by two characters. -/
theorem opensEnd_append {d : Char} (hd : isInert d) {s : Text} (hs : s ≠ []) (t : Text) :
    opensEnd (s ++ d :: t) = opensEnd s := by
  rcases s with _ | ⟨e, s⟩
  · exact absurd rfl hs
  · by_cases he : e = '/'
    · subst he
      cases s with
      | nil => exact not_opensName_of_isInert hd t
      | cons => rfl
    · simp [opensEnd, he]

theorem takeWhile_append_cons {p : Char → Bool} {d : Char} (hd : p d = false) (s t : Text) :
    (s ++ d :: t).takeWhile p = s.takeWhile p := by
  induction s with
  | nil => simp [hd]
  | cons c s ih => by_cases hc : p c <;> simp [hc, ih]

theorem opensName_append {s : Text} (hs : s ≠ []) (t : Text) :
    opensName (s ++ t) = opensName s := by
  cases s with
  | nil => exact absurd rfl hs
  | cons c s => rfl

theorem cut_cons {d : Char} (hd : isInert d) (s t : Text) : Cut s (d :: t) := by
  intro c rest _
  have hs := takeWhile_append_cons (not_isSpace_of_isInert hd) rest t
  have hn := takeWhile_append_cons (not_isNameChar_of_isInert hd) rest t
  cases rest with
  | nil =>
    refine lex_congr hs hn (not_opensName_of_isInert hd t) (not_opensEnd_of_isInert hd t) ?_ c
    intro e he
    have : d ≠ e := by
      rintro rfl
      simp only [List.mem_cons, List.not_mem_nil, or_false] at he
      rcases he with rfl | rfl | rfl <;> cases hd
    simp [this]
  | cons e rest =>
    refine lex_congr hs hn rfl (opensEnd_append hd (by simp) t) ?_ c
    intro _ _
    rfl

/-- Nothing looks beyond a `>`. -/
theorem cut_of_rightAngle (s t : Text) : Cut (s ++ ['>']) t := by
  intro c rest hsuffix
  obtain ⟨before, hb⟩ := hsuffix
  rcases List.eq_nil_or_concat rest with rfl | ⟨rest', d, rfl⟩
  · obtain rfl : c = '>' := by simpa using (List.append_inj' hb rfl).2
    exact lex_single rfl rfl (by decide) (by decide) (by decide) t
  · obtain rfl : d = '>' := by
      have : before ++ (c :: rest') ++ [d] = s ++ ['>'] := by simpa using hb
      simpa using (List.append_inj' this rfl).2
    have takeWhile_eq {p : Char → Bool} (hp : p '>' = false) :
        ((rest' ++ ['>']) ++ t).takeWhile p = (rest' ++ ['>']).takeWhile p := by
      rw [takeWhile_append_cons hp rest' [], List.append_assoc]
      exact takeWhile_append_cons hp rest' t
    rw [List.concat_eq_append]
    refine lex_congr (takeWhile_eq rfl) (takeWhile_eq rfl) (opensName_append (by simp) t) ?_ ?_ c
    · rcases rest' with _ | ⟨e, rest'⟩
      · rfl
      · by_cases he : e = '/'
        · subst he
          exact opensName_append (by simp) t
        · simp [opensEnd, he]
    · intro e _
      cases rest' <;> simp

end Token

end ComponentTags
