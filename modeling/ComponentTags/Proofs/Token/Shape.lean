import ComponentTags.Proofs.Token.Cut

/-!
# Shapes of tokens

What the kind of a token says about its text and about the text after it. Everything else about the
texts of tokens follows from their shapes, such as that the tokens of a quote are its occurrences
that are not escaped.
-/

namespace ComponentTags

/-! ## Delimiters -/

/-- The quotes that can delimit a value. -/
inductive Delimiter where
  | single
  | double
deriving DecidableEq, Repr

namespace Delimiter

def mark : Delimiter → Char
  | single => '\''
  | double => '"'

def kind : Delimiter → Token.Kind
  | single => .singleQuote
  | double => .doubleQuote

theorem mark_ne_backslash (q : Delimiter) : q.mark ≠ '\\' := by
  cases q <;> decide

theorem kind_injective {q r : Delimiter} (h : q.kind = r.kind) : q = r := by
  cases q <;> cases r <;> first | rfl | cases h

theorem isQuote_iff {kind : Token.Kind} : kind.isQuote ↔ ∃ q : Delimiter, kind = q.kind := by
  constructor
  · intro h
    cases kind with
    | singleQuote => exact ⟨.single, rfl⟩
    | doubleQuote => exact ⟨.double, rfl⟩
    | _ => cases h
  · rintro ⟨q, rfl⟩
    cases q <;> rfl

/-- The number of quotes in a text that do not stand directly after a backslash, where `previous` is
the character before the text. -/
def unescapedFrom (q : Delimiter) (previous : Char) : Text → Nat
  | [] => 0
  | c :: s => (if c = q.mark ∧ previous ≠ '\\' then 1 else 0) + unescapedFrom q c s

/-- The number of quotes in a value, which stands after its opening quote. -/
def unescaped (q : Delimiter) (s : Text) : Nat :=
  q.unescapedFrom q.mark s

theorem unescapedFrom_append (q : Delimiter) (previous : Char) (s t : Text) :
    q.unescapedFrom previous (s ++ t) =
      q.unescapedFrom previous s + q.unescapedFrom (s.getLastD previous) t := by
  induction s generalizing previous with
  | nil => simp [unescapedFrom]
  | cons c s ih =>
    rw [List.cons_append, unescapedFrom, unescapedFrom, ih, Nat.add_assoc, List.getLastD_cons]

theorem unescapedFrom_of_notMem (q : Delimiter) (previous : Char) {s : Text} (h : q.mark ∉ s) :
    q.unescapedFrom previous s = 0 := by
  induction s generalizing previous with
  | nil => rfl
  | cons c s ih =>
    rw [List.mem_cons, not_or] at h
    simp [unescapedFrom, ih c h.2, Ne.symm h.1]

end Delimiter

namespace Token

/-! ## Shapes -/

/-- A token of the given kind and text before the text `after`. -/
inductive Shape : Kind → Text → Text → Prop where
  | whitespace {s after : Text} : s ≠ [] → (∀ c ∈ s, isSpace c) →
      after.head?.all (!isSpace ·) → Shape .whitespace s after
  | identifier {s after : Text} : s ≠ [] → (∀ c ∈ s, isNameChar c) →
      after.head?.all (!isNameChar ·) → Shape .identifier s after
  | tagStart {after : Text} : opensName after → Shape .tagStart ['<'] after
  | closingTagStart {after : Text} : opensName after → Shape .closingTagStart ['<', '/'] after
  | leftAngle {after : Text} : opensName after = false → opensEnd after = false →
      Shape .leftAngle ['<'] after
  | selfClosing (after : Text) : Shape .selfClosing ['/', '>'] after
  | slash {after : Text} : after.head? ≠ some '>' → Shape .slash ['/'] after
  | quote (q : Delimiter) (after : Text) : Shape q.kind [q.mark] after
  | escapedSingleQuote (after : Text) : Shape .escapedSingleQuote ['\\', '\''] after
  | escapedDoubleQuote (after : Text) : Shape .escapedDoubleQuote ['\\', '"'] after
  | backslash {after : Text} : (∀ q : Delimiter, after.head? ≠ some q.mark) →
      Shape .backslash ['\\'] after
  | rightAngle (after : Text) : Shape .rightAngle ['>'] after
  | assign (after : Text) : Shape .assign ['='] after
  | backtick (after : Text) : Shape .backtick ['\x60'] after
  | other {c : Char} (after : Text) : isSpace c = false → isNameChar c = false →
      c ∉ ['<', '/', '>', '=', '\'', '"', '\\', '\x60'] → Shape .other [c] after

/-- The text of the kinds that are written in one way only. -/
def Kind.text? : Kind → Option Text
  | .tagStart | .leftAngle => some ['<']
  | .closingTagStart => some ['<', '/']
  | .selfClosing => some ['/', '>']
  | .rightAngle => some ['>']
  | .slash => some ['/']
  | .assign => some ['=']
  | .singleQuote => some ['\'']
  | .doubleQuote => some ['"']
  | .backtick => some ['\x60']
  | .escapedSingleQuote => some ['\\', '\'']
  | .escapedDoubleQuote => some ['\\', '"']
  | .backslash => some ['\\']
  | .endOfSource | .whitespace | .identifier | .other => none

theorem run_takeWhile {p : Char → Bool} {c : Char} (hc : p c) (rest : Text) :
    (∀ d ∈ c :: rest.take (rest.takeWhile p).length, p d) ∧
      (rest.drop (rest.takeWhile p).length).head?.all (!p ·) := by
  rw [← List.prefix_iff_eq_take.1 (List.takeWhile_prefix p)]
  refine ⟨List.forall_mem_cons.2 ⟨hc, fun d hd => List.all_eq_true.1 List.all_takeWhile d hd⟩, ?_⟩
  have hdrop : rest.drop (rest.takeWhile p).length = rest.dropWhile p := by
    have hsplit : rest = rest.takeWhile p ++ rest.dropWhile p :=
      List.takeWhile_append_dropWhile.symm
    exact (congrArg (List.drop (rest.takeWhile p).length) hsplit).trans List.drop_left
  rw [hdrop]
  have hhead := List.head?_dropWhile_not p rest
  cases h : (rest.dropWhile p).head? <;> simp_all

theorem shape_lex (c : Char) (rest : Text) :
    Shape (Kind.lex c rest).1 (c :: rest.take (Kind.lex c rest).2)
      (rest.drop (Kind.lex c rest).2) := by
  by_cases hs : isSpace c
  · have hlex : Kind.lex c rest = (.whitespace, (rest.takeWhile isSpace).length) := by
      simp [Kind.lex, hs]
    rw [hlex]
    exact .whitespace (by simp) (run_takeWhile hs rest).1 (run_takeWhile hs rest).2
  rw [Bool.not_eq_true] at hs
  by_cases hn : isNameChar c
  · rw [lex_of_isNameChar hs hn]
    exact .identifier (by simp) (run_takeWhile hn rest).1 (run_takeWhile hn rest).2
  rw [Bool.not_eq_true] at hn
  by_cases ha : c = '<'
  · subst ha
    rw [lex_angle]
    split
    · next ho => exact .tagStart ho
    · next ho =>
      split
      · next he =>
        rcases rest with _ | ⟨d, rest⟩
        · cases he
        · by_cases hd : d = '/'
          · subst hd
            exact .closingTagStart he
          · simp [opensEnd, hd] at he
      · next he => exact .leftAngle (by simpa using ho) (by simpa using he)
  by_cases hl : c = '/'
  · subst hl
    rw [lex_slash]
    split
    · next hr =>
      obtain ⟨rest, rfl⟩ := List.head?_eq_some_iff.1 hr
      exact .selfClosing _
    · next hr => exact .slash hr
  by_cases hb : c = '\\'
  · subst hb
    rw [lex_backslash]
    split
    · next hr =>
      obtain ⟨rest, rfl⟩ := List.head?_eq_some_iff.1 hr
      exact .escapedSingleQuote _
    · next hr =>
      split
      · next hr' =>
        obtain ⟨rest, rfl⟩ := List.head?_eq_some_iff.1 hr'
        exact .escapedDoubleQuote _
      · next hr' =>
        refine .backslash fun q => ?_
        cases q with
        | single => exact hr
        | double => exact hr'
  rw [lex_single hs hn ha hl hb, Nat.le_zero.1 (length_lex_le c [])]
  simp only [List.take_zero, List.drop_zero]
  by_cases hr : c = '>'
  · subst hr
    exact .rightAngle _
  by_cases he : c = '='
  · subst he
    exact .assign _
  by_cases hq : c = '\''
  · subst hq
    exact .quote .single _
  by_cases hd : c = '"'
  · subst hd
    exact .quote .double _
  by_cases ht : c = '\x60'
  · subst ht
    exact .backtick _
  have hother : Kind.lex c [] = (.other, 0) := by
    simp only [Kind.lex, hs, hn, Bool.false_eq_true, if_false]
  rw [hother]
  exact .other _ hs hn (by simp [*])

theorem takeWhile_run {p : Char → Bool} {s after : Text} (hs : ∀ c ∈ s, p c)
    (hafter : after.head?.all (!p ·)) : (s ++ after).takeWhile p = s := by
  rw [List.takeWhile_append_of_pos hs]
  cases after with
  | nil => simp
  | cons c after =>
    have hc : p c = false := by simpa using hafter
    simp [hc]

theorem not_isSpace_of_isNameChar {c : Char} (h : isNameChar c) : isSpace c = false := by
  refine Bool.eq_false_iff.2 fun hs => ?_
  simp only [isSpace, Bool.or_eq_true, decide_eq_true_eq] at hs
  rcases hs with ((rfl | rfl) | rfl) | rfl <;> exact absurd h (by decide)

/-- The shape of a token decides how the text is cut. -/
theorem not_isNameChar_of_isSpace {c : Char} (h : isSpace c) : !isNameChar c := by
  cases hn : isNameChar c with
  | false => rfl
  | true => simp [not_isSpace_of_isNameChar hn] at h

theorem lex_of_shape {kind : Kind} {c : Char} {s after : Text} (h : Shape kind (c :: s) after) :
    Kind.lex c (s ++ after) = (kind, s.length) := by
  cases h with
  | whitespace _ hs hafter =>
    obtain ⟨hc, hs⟩ := List.forall_mem_cons.1 hs
    simp [Kind.lex, hc, takeWhile_run hs hafter]
  | identifier _ hs hafter =>
    obtain ⟨hc, hs⟩ := List.forall_mem_cons.1 hs
    rw [lex_of_isNameChar (not_isSpace_of_isNameChar hc) hc, takeWhile_run hs hafter]
  | tagStart ho => simp [lex_angle, ho]
  | closingTagStart ho =>
    have hslash : opensName ('/' :: after) = false := rfl
    simp [lex_angle, hslash, opensEnd, ho]
  | leftAngle ho he => simp [lex_angle, ho, he]
  | slash hh => simp [lex_slash, hh]
  | quote q => cases q <;> rfl
  | backslash hq =>
    have hsingle : after.head? ≠ some '\'' := hq .single
    have hdouble : after.head? ≠ some '"' := hq .double
    simp [lex_backslash, hsingle, hdouble]
  | other _ hs hn hc =>
    simp only [List.mem_cons, List.not_mem_nil, or_false, not_or] at hc
    rw [List.nil_append, lex_single hs hn hc.1 hc.2.1 hc.2.2.2.2.2.2.1]
    simp [Kind.lex, hs, hn, hc]
  | _ => rfl

namespace Shape

variable {kind : Kind} {s after : Text}

theorem ne_nil (h : Shape kind s after) : s ≠ [] := by
  cases h <;> first
    | assumption
    | simp

theorem text_eq (h : Shape kind s after) {t : Text} (ht : kind.text? = some t) : s = t := by
  cases h with
  | quote q =>
    cases q with
    | single => exact Option.some.inj ht
    | double => exact Option.some.inj ht
  | whitespace => cases ht
  | identifier => cases ht
  | other => cases ht
  | _ => exact Option.some.inj ht

theorem text_eq_of_quote (h : Shape kind s after) {q : Delimiter} (hk : kind = q.kind) :
    s = [q.mark] := by
  refine h.text_eq ?_
  rw [hk]
  cases q <;> rfl

theorem isSpace_of_whitespace (h : Shape kind s after) (hk : kind = .whitespace) :
    ∀ c ∈ s, isSpace c := by
  cases h with
  | whitespace _ hall => exact hall
  | quote q => cases q <;> cases hk
  | _ => cases hk

theorem isNameChar_of_identifier (h : Shape kind s after) (hk : kind = .identifier) :
    ∀ c ∈ s, isNameChar c := by
  cases h with
  | identifier _ hall => exact hall
  | quote q => cases q <;> cases hk
  | _ => cases hk

theorem head?_of_ne_whitespace (h : Shape kind s after) (hk : kind ≠ .whitespace) (rest : Text) :
    (s ++ rest).head?.all (!isSpace ·) := by
  cases h with
  | whitespace => exact absurd rfl hk
  | identifier hne hall =>
    obtain ⟨c, s, rfl⟩ := List.exists_cons_of_ne_nil hne
    simpa using not_isSpace_of_isNameChar (hall c List.mem_cons_self)
  | quote q => cases q <;> rfl
  | other _ hs => simpa using hs
  | _ => rfl

/-- A last backslash is a token of its own, and no quote follows it. -/
theorem head?_ne_of_backslash (h : Shape kind s after) (hs : s.getLast? = some '\\')
    (q : Delimiter) : after.head? ≠ some q.mark := by
  have notMem {p : Char → Bool} (hp : p '\\' = false) (hall : ∀ c ∈ s, p c) : False := by
    have := hall _ (List.mem_of_getLast? hs)
    rw [hp] at this
    cases this
  cases h with
  | backslash hq => exact hq q
  | whitespace _ hall => exact (notMem rfl hall).elim
  | identifier _ hall => exact (notMem rfl hall).elim
  | quote r => cases r <;> simp [Delimiter.mark] at hs
  | other _ _ _ hc =>
    simp only [List.getLast?_singleton, Option.some.injEq] at hs
    simp [hs] at hc
  | _ => simp at hs

/-- Only its own kind of token holds a quote that is not escaped. -/
theorem unescapedFrom_eq (h : Shape kind s after) {q : Delimiter} {previous : Char}
    (hp : previous = '\\' → s.head? ≠ some q.mark) :
    q.unescapedFrom previous s = if kind = q.kind then 1 else 0 := by
  have run {p : Char → Bool} (hq : p q.mark = false) (hall : ∀ c ∈ s, p c) :
      q.unescapedFrom previous s = 0 := by
    refine q.unescapedFrom_of_notMem previous fun hm => ?_
    simp [hall _ hm] at hq
  cases h with
  | whitespace _ hall =>
    rw [run (by cases q <;> rfl) hall]
    cases q <;> rfl
  | identifier _ hall =>
    rw [run (by cases q <;> rfl) hall]
    cases q <;> rfl
  | quote r =>
    by_cases hr : r = q
    · subst hr
      have : previous ≠ '\\' := fun h => hp h rfl
      simp [Delimiter.unescapedFrom, this]
    · have hmark : r.mark ≠ q.mark := by
        cases r <;> cases q <;> simp_all [Delimiter.mark]
      have hkind : r.kind ≠ q.kind := fun h => hr (Delimiter.kind_injective h)
      simp [Delimiter.unescapedFrom, hmark, hkind]
  | other _ _ _ hc =>
    rw [q.unescapedFrom_of_notMem]
    · cases q <;> rfl
    · simp only [List.mem_singleton]
      rintro rfl
      cases q <;> simp [Delimiter.mark] at hc
  | _ => cases q <;> rfl

theorem eq_assign (h : Shape kind s after) (hs : '=' ∈ s) : kind = .assign ∧ s = ['='] := by
  cases h with
  | assign => exact ⟨rfl, rfl⟩
  | whitespace _ hall => cases hall _ hs
  | identifier _ hall => cases hall _ hs
  | quote q => cases q <;> simp [Delimiter.mark] at hs
  | other _ _ _ hc =>
    obtain rfl := List.mem_singleton.1 hs
    simp at hc
  | _ => simp at hs

theorem eq_bracket (h : Shape kind s after) (hs : '>' ∈ s) :
    kind = .rightAngle ∧ s = ['>'] ∨ kind = .selfClosing ∧ s = ['/', '>'] := by
  cases h with
  | rightAngle => exact .inl ⟨rfl, rfl⟩
  | selfClosing => exact .inr ⟨rfl, rfl⟩
  | whitespace _ hall => cases hall _ hs
  | identifier _ hall => cases hall _ hs
  | quote q => cases q <;> simp [Delimiter.mark] at hs
  | other _ _ _ hc =>
    obtain rfl := List.mem_singleton.1 hs
    simp at hc
  | _ => simp at hs

theorem kind_of_isNameChar (h : Shape kind s after) {c : Char} (hc : c ∈ s)
    (hname : isNameChar c) : kind = .identifier := by
  refine Decidable.byContradiction fun hk => ?_
  have hall : s.all (!isNameChar ·) := by
    cases h with
    | identifier => exact absurd rfl hk
    | whitespace _ hspace =>
      exact List.all_eq_true.2 fun d hd => not_isNameChar_of_isSpace (hspace d hd)
    | quote q => cases q <;> rfl
    | other _ _ hn => simpa using hn
    | _ => rfl
  simpa [hname] using List.all_eq_true.1 hall c hc

theorem kind_of_isSpace (h : Shape kind s after) {c : Char} (hc : c ∈ s)
    (hspace : isSpace c) : kind = .whitespace := by
  refine Decidable.byContradiction fun hk => ?_
  have hall : s.all (!isSpace ·) := by
    cases h with
    | whitespace => exact absurd rfl hk
    | identifier _ hname =>
      exact List.all_eq_true.2 fun d hd => by simpa using not_isSpace_of_isNameChar (hname d hd)
    | quote q => cases q <;> rfl
    | other _ hs => simpa using hs
    | _ => rfl
  simpa [hspace] using List.all_eq_true.1 hall c hc

end Shape

theorem listAt_of_shape {kind : Kind} {s after : Text} (h : Shape kind s after) (p : Place) :
    listAt p (s ++ after) = ⟨kind, s, p.offset, p.line⟩ :: listAt (p.past s) after := by
  cases s with
  | nil => exact absurd rfl h.ne_nil
  | cons c s =>
    rw [listAt, List.cons_append, listFrom]
    simp [first, afterFirst, lex_of_shape h, stop, newlines, listAt]

/-- A quote can be cut off from a text that does not end in a backslash. -/
theorem cut_mark (q : Delimiter) {s : Text} (hs : s.getLast? ≠ some '\\') (t : Text) :
    Cut s (q.mark :: t) := by
  have hspace : isSpace q.mark = false := by cases q <;> rfl
  have hname : isNameChar q.mark = false := by cases q <;> rfl
  have hopens : opensName (q.mark :: t) = false := by cases q <;> rfl
  rintro c rest ⟨before, rfl⟩
  cases rest with
  | cons d rest =>
    have hend : opensEnd (d :: rest ++ q.mark :: t) = opensEnd (d :: rest) := by
      by_cases hd : d = '/'
      · subst hd
        cases rest with
        | nil => exact hopens
        | cons => rfl
      · simp [opensEnd, hd]
    exact lex_congr (takeWhile_append_cons hspace _ _) (takeWhile_append_cons hname _ _) rfl hend
      (fun _ _ => .rfl) c
  | nil =>
    -- only a backslash looks at the quote behind it
    have hb : c ≠ '\\' := by simpa using hs
    by_cases hcs : isSpace c
    · simp [Kind.lex, hcs, hspace]
    by_cases hcn : isNameChar c
    · simp [Kind.lex, hcs, hcn, hname]
    by_cases ha : c = '<'
    · have hend : opensEnd (q.mark :: t) = false := by cases q <;> rfl
      rw [ha, List.nil_append, lex_angle, hopens, hend]
      rfl
    by_cases hl : c = '/'
    · have hhead : q.mark ≠ '>' := by cases q <;> decide
      simp [hl, lex_slash, hhead]
    exact lex_single (by simpa using hcs) (by simpa using hcn) ha hl hb _

/-! ## Tokens cut from a text -/

/-- The token that a character of the text belongs to. -/
theorem exists_token_of_textOf {tokens : List Token} {before rest : Text} {c : Char}
    (h : textOf tokens = before ++ c :: rest) :
    ∃ init t tail x y, tokens = init ++ t :: tail ∧ t.text = x ++ c :: y ∧
      before = textOf init ++ x ∧ rest = y ++ textOf tail := by
  induction tokens generalizing before with
  | nil => simp at h
  | cons t tokens ih =>
    -- either the character is past the first token, or in it
    have past {before' : Text} (hbefore : before = t.text ++ before')
        (h : textOf tokens = before' ++ c :: rest) :
        ∃ init u tail x y, t :: tokens = init ++ u :: tail ∧ u.text = x ++ c :: y ∧
          before = textOf init ++ x ∧ rest = y ++ textOf tail := by
      obtain ⟨init, u, tail, x, y, rfl, htext, rfl, hrest⟩ := ih h
      exact ⟨t :: init, u, tail, x, y, rfl, htext, by simp [hbefore], hrest⟩
    rw [textOf_cons] at h
    rcases List.append_eq_append_iff.1 h with ⟨before', hbefore, htokens⟩ | ⟨y, htext, hrest⟩
    · exact past hbefore htokens
    · cases y with
      | nil => exact past (show before = t.text ++ [] by simpa using htext.symm) hrest.symm
      | cons d y =>
        obtain ⟨rfl, rfl⟩ := List.cons.inj hrest
        exact ⟨[], t, tokens, before, y, rfl, htext, rfl, rfl⟩

/-- Tokens that have been cut from a text, before the text `after`. -/
inductive Lexed : List Token → Text → Prop where
  | nil (after : Text) : Lexed [] after
  | cons {t : Token} {tokens : List Token} {after : Text} :
      Shape t.kind t.text (textOf tokens ++ after) → Lexed tokens after → Lexed (t :: tokens) after

theorem lexed_listFrom (start line : Nat) (s : Text) : Lexed (listFrom start line s) [] := by
  fun_induction listFrom start line s with
  | case1 => exact .nil []
  | case2 start line c rest token ih =>
    refine .cons ?_ ih
    rw [textOf_listFrom, List.append_nil]
    exact shape_lex c rest

namespace Lexed

variable {tokens tokens' : List Token} {after : Text}

theorem append_iff :
    Lexed (tokens ++ tokens') after ↔
      Lexed tokens (textOf tokens' ++ after) ∧ Lexed tokens' after := by
  induction tokens with
  | nil => exact ⟨fun h => ⟨.nil _, h⟩, fun h => h.2⟩
  | cons t tokens ih =>
    constructor
    · rintro (_ | ⟨hshape, h⟩)
      obtain ⟨hl, hr⟩ := ih.1 h
      exact ⟨.cons (by simpa using hshape) hl, hr⟩
    · rintro ⟨_ | ⟨hshape, hl⟩, hr⟩
      exact .cons (by simpa using hshape) (ih.2 ⟨hl, hr⟩)

theorem shape (h : Lexed (tokens ++ t :: tokens') after) :
    Shape t.kind t.text (textOf tokens' ++ after) := by
  obtain ⟨-, _ | ⟨hshape, -⟩⟩ := append_iff.1 h
  exact hshape

theorem exists_shape_of_mem (h : Lexed tokens after) {t : Token} (ht : t ∈ tokens) :
    ∃ after, Shape t.kind t.text after := by
  obtain ⟨before, rest, rfl⟩ := List.append_of_mem ht
  exact ⟨_, h.shape⟩

/-- The tokens of a quote are its occurrences that are not escaped. -/
theorem countP_eq (h : Lexed tokens after) {q : Delimiter} {previous : Char}
    (hp : previous = '\\' → (textOf tokens ++ after).head? ≠ some q.mark) :
    tokens.countP (·.kind == q.kind) = q.unescapedFrom previous (textOf tokens) := by
  induction h generalizing previous with
  | nil => rfl
  | @cons t tokens after hshape h ih =>
    have hne := hshape.ne_nil
    have hhead : (textOf (t :: tokens) ++ after).head? = t.text.head? := by
      rw [textOf_cons, List.append_assoc, List.head?_append, List.head?_eq_some_head hne,
        Option.some_or]
    rw [textOf_cons, Delimiter.unescapedFrom_append, hshape.unescapedFrom_eq (hhead ▸ hp),
      ← ih, List.countP_cons, Nat.add_comm]
    · simp
    · intro hlast
      refine hshape.head?_ne_of_backslash ?_ q
      rw [List.getLastD_eq_getLast?, List.getLast?_eq_some_getLast hne, Option.getD_some] at hlast
      rw [List.getLast?_eq_some_getLast hne, hlast]

/-- In a value, nothing before the first quote escapes it. -/
theorem countP_eq_unescaped (h : Lexed tokens after) (q : Delimiter) :
    tokens.countP (·.kind == q.kind) = q.unescaped (textOf tokens) :=
  h.countP_eq fun hmark => absurd hmark q.mark_ne_backslash

end Lexed

end Token
end ComponentTags
