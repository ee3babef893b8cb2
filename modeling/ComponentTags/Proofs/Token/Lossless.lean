import Mathlib
import ComponentTags.Proofs.Token.Shape

/-!
# Tokens lose nothing

The tokens of a source stand side by side from its start to its end, each with its place and its own
piece of the source, and no two of them that stand together could have been one. Every `<` begins a
token of its own, and what stands behind it decides whether it is the mark of a tag.
-/

namespace ComponentTags

namespace Token

/-- Tokens that stand side by side from the start of a source to its end. -/
structure Tiles (tokens : List Token) (source : Text) : Prop where
  start_first : ∀ t ∈ tokens.head?, t.start = 0
  adjoining : tokens.IsChain fun t u => t.stop = u.start
  stop_last : ∀ t ∈ tokens.getLast?, t.stop = Text.byteSize source
  nonempty : ∀ t ∈ tokens, t.start < t.stop
  text_eq : ∀ t ∈ tokens, t.text = t.span.of source
  textOf_eq : textOf tokens = source
  line_eq : ∀ t ∈ tokens, t.line = 1 + Text.lineBreaks (Text.takeBytes t.start source)

/-- The kinds of two tokens that would be one if they stood together. -/
inductive Kind.Merges : Kind → Kind → Prop where
  | whitespace : Merges .whitespace .whitespace
  | identifier : Merges .identifier .identifier
  | selfClosing : Merges .slash .rightAngle
  | escaped (q : Delimiter) : Merges .backslash q.kind

/-- The token of a `<` before the text `after`, and the tokens that follow it: whether it opens a
tag is decided by the characters behind it, and then the next token is an identifier that begins
with the capital letter. -/
structure Marks (t : Token) (after : Text) (following : List Token) : Prop where
  tagStart_iff : t.kind = .tagStart ↔ opensName after
  closingTagStart_iff : t.kind = .closingTagStart ↔ opensEnd after
  leftAngle_iff : t.kind = .leftAngle ↔ opensName after = false ∧ opensEnd after = false
  text_eq : t.text = if opensEnd after then ['<', '/'] else ['<']
  name_after : t.kind = .tagStart ∨ t.kind = .closingTagStart →
    ∃ letter rest name others, after = t.text.tail ++ letter :: rest ∧ letter.isUpper ∧
      following = name :: others ∧ name.kind = .identifier ∧ name.text.head? = some letter

/-! ## Places -/

variable {start line : Nat} {s source : Text} {tokens before after : List Token} {t u : Token}

/-- A token and the text on both sides of it. -/
theorem exists_split_of_mem (h : t ∈ list source) :
    ∃ before after, source = before ++ t.text ++ after ∧ t.text ≠ [] ∧
      t.start = Text.byteSize before ∧ t.line = 1 + Text.lineBreaks before := by
  obtain ⟨preceding, following, hsplit⟩ := List.append_of_mem h
  obtain ⟨hstart, hline⟩ := start_of_listFrom_eq hsplit
  have hsource := textOf_listFrom 0 1 source
  rw [list] at hsplit
  rw [hsplit, textOf_append, textOf_cons, ← List.append_assoc] at hsource
  obtain ⟨_, hshape⟩ := (lexed_listFrom 0 1 source).exists_shape_of_mem h
  exact ⟨_, _, hsource.symm, hshape.ne_nil, by simpa using hstart, hline⟩

theorem stop_eq_start_of_listFrom_eq (h : listFrom start line s = before ++ t :: u :: after) :
    t.stop = u.start := by
  have hnext : listFrom start line s = (before ++ [t]) ++ u :: after := by simpa using h
  rw [stop, (start_of_listFrom_eq h).1, (start_of_listFrom_eq hnext).1]
  simp [Nat.add_assoc]

/-- The tokens of a source tile it. -/
theorem tiles_list (source : Text) : Tiles (list source) source where
  start_first := by
    intro t ht
    obtain ⟨following, hsplit⟩ := List.head?_eq_some_iff.1 ht
    have hfirst : listFrom 0 1 source = [] ++ t :: following := hsplit
    exact (start_of_listFrom_eq hfirst).1
  adjoining := by
    rw [List.isChain_iff_forall_rel_of_append_cons_cons]
    intro t u before after hsplit
    exact stop_eq_start_of_listFrom_eq hsplit
  stop_last := by
    intro t ht
    obtain ⟨preceding, hsplit⟩ := List.getLast?_eq_some_iff.1 ht
    have hsource := textOf_listFrom 0 1 source
    rw [list] at hsplit
    rw [hsplit] at hsource
    rw [stop, (start_of_listFrom_eq hsplit).1, ← hsource]
    simp
  nonempty := by
    intro t ht
    obtain ⟨_, _, -, hne, -, -⟩ := exists_split_of_mem ht
    have hpos := mt Text.byteSize_eq_zero.1 hne
    simp only [stop]
    omega
  text_eq := by
    intro t ht
    obtain ⟨before, after, hsource, -, hstart, -⟩ := exists_split_of_mem ht
    have hslice := Text.slice_append before t.text after
    rw [← hsource, ← hstart] at hslice
    exact hslice.symm
  textOf_eq := textOf_listFrom 0 1 source
  line_eq := by
    intro t ht
    obtain ⟨before, after, hsource, -, hstart, hline⟩ := exists_split_of_mem ht
    have htake := Text.takeBytes_append before (t.text ++ after)
    rw [← List.append_assoc, ← hsource, ← hstart] at htake
    rw [hline, htake]

/-! ## Tokens that stand together -/

namespace Shape

variable {kind kind' : Kind} {text text' rest : Text}

theorem not_isSpace_after (h : Shape kind text rest) (hk : kind = .whitespace) :
    rest.head?.all (!isSpace ·) := by
  cases h with
  | whitespace _ _ hrest => exact hrest
  | quote q => cases q <;> cases hk
  | _ => cases hk

theorem not_isNameChar_after (h : Shape kind text rest) (hk : kind = .identifier) :
    rest.head?.all (!isNameChar ·) := by
  cases h with
  | identifier _ _ hrest => exact hrest
  | quote q => cases q <;> cases hk
  | _ => cases hk

theorem head?_ne_of_slash (h : Shape kind text rest) (hk : kind = .slash) :
    rest.head? ≠ some '>' := by
  cases h with
  | slash hrest => exact hrest
  | quote q => cases q <;> cases hk
  | _ => cases hk

/-- A token is as long as it can be: none that it would merge with comes after it. -/
theorem not_merges (h : Shape kind text (text' ++ rest)) (h' : Shape kind' text' rest) :
    ¬ kind.Merges kind' := by
  obtain ⟨c, others, rfl⟩ := List.exists_cons_of_ne_nil h'.ne_nil
  intro hmerges
  cases hmerges with
  | whitespace =>
    have hspace := h'.isSpace_of_whitespace rfl c List.mem_cons_self
    have hafter := h.not_isSpace_after rfl
    simp [hspace] at hafter
  | identifier =>
    have hname := h'.isNameChar_of_identifier rfl c List.mem_cons_self
    have hafter := h.not_isNameChar_after rfl
    simp [hname] at hafter
  | selfClosing =>
    have htext := h'.text_eq rfl
    have hafter := h.head?_ne_of_slash rfl
    simp [htext] at hafter
  | escaped q =>
    have htext := h'.text_eq_of_quote rfl
    have hafter := h.head?_ne_of_backslash (by rw [h.text_eq rfl]; rfl) q
    simp [htext] at hafter

end Shape

/-- Two tokens that stand together could not have been one. -/
theorem isChain_list (source : Text) :
    (list source).IsChain fun t u => ¬ t.kind.Merges u.kind := by
  rw [List.isChain_iff_forall_rel_of_append_cons_cons]
  intro t u before after hsplit
  have hlexed := lexed_listFrom 0 1 source
  rw [← list, hsplit] at hlexed
  have hfirst := hlexed.shape
  rw [← List.singleton_append, ← List.append_assoc] at hlexed
  have hsecond := hlexed.shape
  rw [textOf_cons, List.append_assoc] at hfirst
  exact hfirst.not_merges hsecond

/-! ## Marks -/

theorem exists_slash_of_opensEnd {after : Text} (h : opensEnd after) :
    ∃ rest, after = '/' :: rest := by
  unfold opensEnd at h
  split at h
  · next rest => exact ⟨rest, rfl⟩
  · cases h

theorem opensEnd_of_opensName {after : Text} (h : opensName after) : opensEnd after = false := by
  refine Bool.eq_false_iff.2 fun hend => ?_
  obtain ⟨rest, rfl⟩ := exists_slash_of_opensEnd hend
  cases h

theorem exists_name_of_isUpper {letter : Char} (h : letter.isUpper) (start line : Nat)
    (rest : Text) :
    ∃ name others, listFrom start line (letter :: rest) = name :: others ∧
      name.kind = .identifier ∧ name.text.head? = some letter := by
  have hlex : Kind.lex letter rest = (.identifier, (rest.takeWhile isNameChar).length) :=
    lex_of_isNameChar (not_isSpace_of_isUpper h) (isNameChar_of_isUpper h)
  rw [listFrom]
  refine ⟨_, _, rfl, ?_, rfl⟩
  simp [first, hlex]

theorem exists_letter_of_opensName {after : Text} (h : opensName after) :
    ∃ letter rest, after = letter :: rest ∧ letter.isUpper := by
  cases after with
  | nil => cases h
  | cons letter rest => exact ⟨letter, rest, rfl, h⟩

theorem marks_first (start line : Nat) (after : Text) :
    Marks (first start line '<' after) after
      (listFrom (first start line '<' after).stop (line + (first start line '<' after).newlines)
        (afterFirst '<' after)) where
  tagStart_iff := by
    by_cases hname : opensName after <;> by_cases hend : opensEnd after <;>
      simp [first, lex_angle, hname, hend]
  closingTagStart_iff := by
    by_cases hname : opensName after
    · simp [first, lex_angle, hname, opensEnd_of_opensName hname]
    · by_cases hend : opensEnd after <;> simp [first, lex_angle, hname, hend]
  leftAngle_iff := by
    by_cases hname : opensName after <;> by_cases hend : opensEnd after <;>
      simp [first, lex_angle, hname, hend]
  text_eq := by
    by_cases hname : opensName after
    · simp [first, lex_angle, hname, opensEnd_of_opensName hname]
    · by_cases hend : opensEnd after
      · obtain ⟨rest, rfl⟩ := exists_slash_of_opensEnd hend
        simp [first, lex_angle, hname, hend]
      · simp [first, lex_angle, hname, hend]
  name_after := by
    intro hkind
    have hlex : Kind.lex '<' after =
        ((first start line '<' after).kind, (Kind.lex '<' after).2) := rfl
    have hname : opensName (afterFirst '<' after) := opensName_of_lex hlex hkind
    obtain ⟨letter, rest, hafter, hupper⟩ := exists_letter_of_opensName hname
    obtain ⟨name, others, hlist, hidentifier, hhead⟩ := exists_name_of_isUpper hupper
      (first start line '<' after).stop (line + (first start line '<' after).newlines) rest
    refine ⟨letter, rest, name, others, ?_, hupper, hafter ▸ hlist, hidentifier, hhead⟩
    have htext := text_first_append start line '<' after
    rw [hafter] at htext
    exact congrArg List.tail htext.symm

/-- Every `<` begins a token of its own. -/
theorem exists_marks (before after : Text) :
    ∃ preceding t following, list (before ++ '<' :: after) = preceding ++ t :: following ∧
      textOf preceding = before ∧ t.start = Text.byteSize before ∧ Marks t after following := by
  have hcut : Cut before ('<' :: after) := cut_cons rfl before after
  have hsplit := listFrom_append hcut 0 1
  rw [listFrom] at hsplit
  exact ⟨_, _, _, hsplit, textOf_listFrom 0 1 before, by simp [first], marks_first _ _ after⟩

/-- The mark of a tag, and any token that would be one before a name, stands at a `<`. -/
theorem exists_marks_of_kind (h : list source = before ++ t :: after)
    (hk : t.kind = .tagStart ∨ t.kind = .closingTagStart ∨ t.kind = .leftAngle) :
    ∃ rest, source = textOf before ++ '<' :: rest ∧ Marks t rest after := by
  obtain ⟨_, hsource, htokens⟩ := listFrom_eq_append h
  obtain ⟨c, rest, rfl, rfl, rfl⟩ := exists_of_listFrom_eq_cons htokens.symm
  obtain rfl : c = '<' := eq_of_lex_opens rfl hk
  exact ⟨rest, hsource, marks_first _ _ rest⟩

/-- The tokens of a source tile it, each as long as it can be. A `<` opens a tag exactly before a
capital letter, directly or with a `/` between, and the name of the tag follows it. Nothing else
opens a tag. -/
theorem list_tiles_and_marks (source : Text) :
    Tiles (list source) source ∧
      ((list source).IsChain fun t u => ¬ t.kind.Merges u.kind) ∧
      (∀ before after, source = before ++ '<' :: after →
        ∃ preceding t following, list source = preceding ++ t :: following ∧
          textOf preceding = before ∧ t.start = Text.byteSize before ∧
            Marks t after following) ∧
      ∀ preceding t following, list source = preceding ++ t :: following →
        t.kind = .tagStart ∨ t.kind = .closingTagStart ∨ t.kind = .leftAngle →
        ∃ after, source = textOf preceding ++ '<' :: after ∧ Marks t after following := by
  refine ⟨tiles_list source, isChain_list source, ?_, ?_⟩
  · rintro before after rfl
    exact exists_marks before after
  · intro preceding t following hsplit hk
    exact exists_marks_of_kind hsplit hk

end Token

end ComponentTags
