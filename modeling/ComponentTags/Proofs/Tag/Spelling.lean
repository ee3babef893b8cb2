import ComponentTags.Proofs.Tag.Coverage

/-!
# Spelling

What a tag is written as, character by character: a start tag or a self-closing tag is its name and
its attributes with white space between the parts, an end tag its name alone. Every tag of a source
is spelled in this way where it stands, and its attributes are what is written.
-/

namespace ComponentTags

namespace Tag

open Token (isSpace isNameChar opensName)

/-- An attribute as it is written, with the white space before the parts that may have some. -/
structure Entry where
  lead : Text
  key : Text
  beforeAssign : Text
  afterAssign : Text
  delimiter : Delimiter
  value : Text
  lead_space : lead.all isSpace := by decide
  key_ne_nil : key ≠ [] := by decide
  key_chars : key.all isNameChar := by decide
  beforeAssign_space : beforeAssign.all isSpace := by decide
  afterAssign_space : afterAssign.all isSpace := by decide

namespace Entry

def text (e : Entry) : Text :=
  e.lead ++ (e.key ++ (e.beforeAssign ++ '=' ::
    (e.afterAssign ++ e.delimiter.mark :: (e.value ++ [e.delimiter.mark]))))

def pair (e : Entry) : Text × Text :=
  (e.key, e.value)

/-- The quotes inside the value that are not escaped are even in number. -/
def Even (e : Entry) : Prop :=
  e.delimiter.unescaped e.value % 2 = 0

end Entry

/-- A start tag or a self-closing tag as it is written. -/
structure Spelling where
  /-- The white space between the `<` and the name. -/
  lead : Text
  name : Text
  entries : List Entry
  /-- The white space before the terminator. -/
  trail : Text
  isSelfClosing : Bool
  lead_space : lead.all isSpace := by decide
  name_opens : opensName name := by decide
  name_chars : name.all isNameChar := by decide
  trail_space : trail.all isSpace := by decide

namespace Spelling

def terminator (s : Spelling) : Text :=
  if s.isSelfClosing then ['/', '>'] else ['>']

def text (s : Spelling) : Text :=
  '<' :: (s.lead ++ (s.name ++ (s.entries.flatMap Entry.text ++ (s.trail ++ s.terminator))))

def kind (s : Spelling) : Kind :=
  if s.isSelfClosing then .selfClosing else .opening

/-- The attributes in the order in which they are written, a repeated one each time. -/
def attributes (s : Spelling) : List (Text × Text) :=
  s.entries.map Entry.pair

end Spelling

/-- A tag that is written as the text. Its attributes are the last ones of each name. -/
inductive SpelledAs (tag : Tag) : Text → Prop where
  | head (s : Spelling) : tag.name = s.name → tag.kind = s.kind →
      Keyed.KeepsLast s.attributes tag.attributes → (∀ e ∈ s.entries, e.Even) →
      SpelledAs tag s.text
  | closing {space : Text} : tag.kind = .closing → tag.attributes = [] → opensName tag.name →
      (∀ c ∈ tag.name, isNameChar c) → (∀ c ∈ space, isSpace c) →
      SpelledAs tag ('<' :: '/' :: (tag.name ++ (space ++ ['>'])))

/-! ## The texts of written tokens -/

variable {tokens : List Token} {following : Text}

theorem isSpace_of_blank (hb : Blank tokens) (h : Token.Lexed tokens following) :
    ∀ c ∈ Token.textOf tokens, isSpace c := by
  intro c hc
  obtain ⟨t, ht, hc⟩ := List.mem_flatMap.1 hc
  obtain ⟨_, hshape⟩ := h.exists_shape_of_mem ht
  exact hshape.isSpace_of_whitespace (by simpa [Token.isWhitespace] using hb t ht) c hc

/-- The text of an attribute, with white space in front, is that of an entry and white space. -/
theorem exists_entry {key : Token} {value : Text} (hk : key.kind = .identifier)
    (hv : WrittenValue value tokens) (hl : Token.Lexed (key :: tokens) following) {lead : Text}
    (hlead : ∀ c ∈ lead, isSpace c) :
    ∃ (e : Entry) (trail : Text), lead ++ Token.textOf (key :: tokens) = e.text ++ trail ∧
      (∀ c ∈ trail, isSpace c) ∧ e.pair = (key.text, value) ∧ e.Even := by
  obtain @⟨before, between, after, inner, assign, opening, finish, hbefore, hassign, hbetween,
    hquote, heven, hfinish, hafter⟩ := hv
  obtain ⟨q, hq⟩ := Delimiter.isQuote_iff.1 hquote
  -- the shapes of the tokens, one after another
  obtain - | ⟨hkey, hl⟩ := hl
  obtain ⟨hbeforeLexed, - | ⟨hassignShape, hl⟩⟩ := Token.Lexed.append_iff.1 hl
  obtain ⟨hbetweenLexed, - | ⟨hopening, hl⟩⟩ := Token.Lexed.append_iff.1 hl
  obtain ⟨hinner, - | ⟨hfinishShape, hafterLexed⟩⟩ := Token.Lexed.append_iff.1 hl
  have hopeningText : opening.text = [q.mark] := hopening.text_eq_of_quote hq
  have hfinishText : finish.text = [q.mark] := hfinishShape.text_eq_of_quote (hfinish.trans hq)
  have hassignText : assign.text = ['='] := hassignShape.text_eq (by rw [hassign]; rfl)
  let e : Entry :=
    { lead, key := key.text, beforeAssign := Token.textOf before
      afterAssign := Token.textOf between, delimiter := q, value := Token.textOf inner
      lead_space := List.all_eq_true.2 hlead, key_ne_nil := hkey.ne_nil
      key_chars := List.all_eq_true.2 (hkey.isNameChar_of_identifier hk)
      beforeAssign_space := List.all_eq_true.2 (isSpace_of_blank hbefore hbeforeLexed)
      afterAssign_space := List.all_eq_true.2 (isSpace_of_blank hbetween hbetweenLexed) }
  refine ⟨e, Token.textOf after, ?_, isSpace_of_blank hafter hafterLexed, rfl, ?_⟩
  · simp [e, Entry.text, hopeningText, hfinishText, hassignText]
  · rw [Entry.Even, ← hinner.countP_eq_unescaped q, ← hq]
    exact heven

theorem exists_entries {entries : List (Text × Text)} (h : WrittenAttributes entries tokens)
    (hl : Token.Lexed tokens following) {lead : Text} (hlead : ∀ c ∈ lead, isSpace c) :
    ∃ (spelled : List Entry) (trail : Text),
      lead ++ Token.textOf tokens = spelled.flatMap Entry.text ++ trail ∧
        (∀ c ∈ trail, isSpace c) ∧ spelled.map Entry.pair = entries ∧ ∀ e ∈ spelled, e.Even := by
  induction h generalizing lead with
  | nil => exact ⟨[], lead, by simp, hlead, rfl, by simp⟩
  | @cons key value tokens rest entries hk hv _ ih =>
    rw [← List.cons_append] at hl ⊢
    obtain ⟨hvalue, hrest⟩ := Token.Lexed.append_iff.1 hl
    obtain ⟨e, between, htext, hbetween, hpair, heven⟩ := exists_entry hk hv hvalue hlead
    obtain ⟨spelled, trail, htexts, htrail, hpairs, hevens⟩ := ih hrest hbetween
    refine ⟨e :: spelled, trail, ?_, htrail, by simp [hpair, hpairs],
      List.forall_mem_cons.2 ⟨heven, hevens⟩⟩
    rw [Token.textOf_append, ← List.append_assoc, htext, List.append_assoc, htexts]
    simp

theorem spelledAs_of_written {tag : Tag} (h : Written tag tokens)
    (hl : Token.Lexed tokens following) : tag.SpelledAs (Token.textOf tokens) := by
  have name_of {name : Token} {after : Text} (hn : name.isTagName)
      (h : Token.Shape name.kind name.text after) :
      opensName name.text ∧ ∀ c ∈ name.text, isNameChar c := by
    simp only [Token.isTagName, Bool.and_eq_true, beq_iff_eq] at hn
    exact ⟨hn.2, h.isNameChar_of_identifier hn.1⟩
  cases h with
  | @opening mark name terminator before between tokens entries kind hm hn hb ha hk =>
    obtain - | ⟨hmark, hl⟩ := hl
    obtain ⟨hbefore, - | ⟨hname, hl⟩⟩ := Token.Lexed.append_iff.1 hl
    obtain ⟨hl, - | ⟨hterminator, -⟩⟩ := Token.Lexed.append_iff.1 hl
    obtain ⟨hbetween, htokens⟩ := Token.Lexed.append_iff.1 hl
    have hmarkText : mark.text = ['<'] := by
      refine hmark.text_eq ?_
      cases hm <;> simp [*, Token.Kind.text?]
    have hlead : ∀ c ∈ Token.textOf before, isSpace c := by
      refine isSpace_of_blank ?_ hbefore
      cases hm <;> simp [Blank, *]
    obtain ⟨spelled, trail, htexts, htrail, hpairs, hevens⟩ :=
      exists_entries ha htokens (isSpace_of_blank hb hbetween)
    let s : Spelling :=
      { lead := Token.textOf before, name := name.text, entries := spelled, trail
        isSelfClosing := kind == .selfClosing
        lead_space := List.all_eq_true.2 hlead, name_opens := (name_of hn hname).1
        name_chars := List.all_eq_true.2 (name_of hn hname).2
        trail_space := List.all_eq_true.2 htrail }
    have hend : terminator.text = s.terminator := by
      refine hterminator.text_eq ?_
      rcases hk with ⟨rfl, hk⟩ | ⟨rfl, hk⟩ <;> rw [hk] <;> rfl
    have htext : Token.textOf (mark :: (before ++ name :: (between ++ tokens ++ [terminator]))) =
        s.text := by
      simp [Spelling.text, s, hmarkText, ← hend, ← List.append_assoc, ← htexts]
    rw [htext]
    refine .head s rfl ?_ ?_ hevens
    · rcases hk with ⟨rfl, -⟩ | ⟨rfl, -⟩ <;> rfl
    · have hattributes : s.attributes = entries := hpairs
      exact hattributes ▸ Keyed.keepsLast_ofList entries
  | @closing mark name terminator between hm hn hb hk =>
    obtain - | ⟨hmark, - | ⟨hname, hl⟩⟩ := hl
    obtain ⟨hbetween, - | ⟨hterminator, -⟩⟩ := Token.Lexed.append_iff.1 hl
    have hmarkText : mark.text = ['<', '/'] := hmark.text_eq (by rw [hm]; rfl)
    have hend : terminator.text = ['>'] := hterminator.text_eq (by rw [hk]; rfl)
    have htext : Token.textOf (mark :: name :: (between ++ [terminator])) =
        '<' :: '/' :: (name.text ++ (Token.textOf between ++ ['>'])) := by
      simp [hmarkText, hend]
    rw [htext]
    exact .closing rfl rfl (name_of hn hname).1 (name_of hn hname).2 (isSpace_of_blank hb hbetween)

/-- Every tag of a source is spelled by the text that its span covers. -/
theorem spelledAs_of_list {source : Text} {tags : List Tag} (h : list source = .ok tags) :
    ∀ tag ∈ tags, tag.SpelledAs (tag.span.of source) := by
  intro tag ht
  obtain ⟨before, mark, written, after, hs, hw⟩ := (laid_of_listOfTokens h).exists_written ht
  have hspan := (placed_of_written hs hw).1
  have htext : source = Token.textOf before ++ Token.textOf (mark :: written) ++
      Token.textOf after := by
    rw [← Token.textOf_listFrom 0 1 source, hs]
    simp
  have hcovered : tag.span.of source = Token.textOf (mark :: written) := by
    rw [hspan, Span.of, Nat.zero_add, htext, Text.slice_append]
  have hlexed := Token.lexed_listFrom 0 1 source
  rw [hs, ← List.cons_append] at hlexed
  rw [hcovered]
  exact spelledAs_of_written hw (Token.Lexed.append_iff.1 (Token.Lexed.append_iff.1 hlexed).2).1

theorem spelledAs_of_list_retriedSource :
    list retriedSource = .ok retriedTags ∧
      ∀ tag ∈ retriedTags, tag.SpelledAs (tag.span.of retriedSource) :=
  ⟨list_retriedSource, spelledAs_of_list list_retriedSource⟩

end Tag
end ComponentTags
