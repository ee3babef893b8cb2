import ComponentTags.Proofs.Tag.Legible
import ComponentTags.Proofs.Tag.Plain
import ComponentTags.Proofs.Tag.Spelling

/-!
# Recovery

A tag that is spelled with values that hide their quotes and brackets is read back as it was
spelled, whatever white space is chosen, in any text before which no `<` stands.
-/

namespace ComponentTags

/-- Every character of the text is in the relation with what stands before it. -/
def Text.Each (P : Text → Char → Prop) (s : Text) : Prop :=
  ∀ before c after, s = before ++ c :: after → P before c

theorem Text.each_iff {P : Text → Char → Prop} {s : Text} :
    Each P s ↔ ∀ i : Fin s.length, P (s.take i) s[i] := by
  constructor
  · intro h i
    refine h _ _ (s.drop (i + 1)) ?_
    simp
  · rintro h before c after rfl
    simpa using h ⟨before.length, by simp⟩

instance (P : Text → Char → Prop) [∀ before c, Decidable (P before c)] (s : Text) :
    Decidable (Text.Each P s) :=
  decidable_of_iff _ Text.each_iff.symm

/-- Every `>` of a value stands after an even number of the quotes that delimit the value. -/
def Delimiter.Shelters (q : Delimiter) (value : Text) : Prop :=
  Text.Each (fun before c => c = '>' → q.unescaped before % 2 = 0) value

/-- No quote that is not escaped stands after a `=`, with white space allowed between the two. -/
def Text.Unassigned (s : Text) : Prop :=
  Text.Each (fun before c => c = '\'' ∨ c = '"' → before.getLast? ≠ some '\\' →
    (Text.dropEndWhile Token.isSpace before).getLast? ≠ some '=') s

instance (q : Delimiter) (value : Text) : Decidable (q.Shelters value) :=
  inferInstanceAs (Decidable (Text.Each _ value))

instance (s : Text) : Decidable (Text.Unassigned s) :=
  inferInstanceAs (Decidable (Text.Each _ s))

namespace Tag

open Token (isSpace isNameChar opensName opensEnd listAt)

/-! ## Recoverable values -/

/-- The value of the attribute is not cut short or lengthened when it is read. -/
structure Entry.Recoverable (e : Entry) : Prop where
  even : e.Even
  sheltered : e.delimiter.Shelters e.value
  /-- The closing quote is not escaped. -/
  unescaped : e.value.getLast? ≠ some '\\'
  unassigned : Text.Unassigned (e.value ++ [e.delimiter.mark])

instance (e : Entry) : Decidable e.Even :=
  inferInstanceAs (Decidable (_ = _))

instance (e : Entry) : Decidable e.Recoverable :=
  decidable_of_iff
    (e.Even ∧ e.delimiter.Shelters e.value ∧ e.value.getLast? ≠ some '\\' ∧
      Text.Unassigned (e.value ++ [e.delimiter.mark]))
    ⟨fun h => ⟨h.1, h.2.1, h.2.2.1, h.2.2.2⟩,
      fun h => ⟨h.even, h.sheltered, h.unescaped, h.unassigned⟩⟩

/-- The brackets of a text are those of its tokens. -/
theorem enclosed_iff_shelters {q : Delimiter} {tokens : List Token} {following : Text}
    (hl : Token.Lexed tokens following) :
    Enclosed q.kind tokens ↔ q.Shelters (Token.textOf tokens) := by
  constructor
  · rintro h before c rest htext rfl
    obtain ⟨init, t, tail, x, y, rfl, ht, rfl, -⟩ := Token.exists_token_of_textOf htext
    obtain ⟨hinit, -⟩ := Token.Lexed.append_iff.1 hl
    have hbracket := hl.shape.eq_bracket (by simp [ht])
    -- at most a slash stands before the bracket in its token
    have hx : q.mark ∉ x := by
      rcases hbracket with ⟨-, htext⟩ | ⟨-, htext⟩
      · rw [htext] at ht
        cases x <;> simp_all
      · rw [htext] at ht
        rcases x with _ | ⟨c, _ | ⟨d, x⟩⟩
        · simp
        · obtain rfl : '/' = c := by simpa using (List.cons.inj ht).1
          cases q <;> decide
        · simp at ht
    have hcount := h init t tail rfl (hbracket.imp And.left And.left)
    rw [hinit.countP_eq_unescaped] at hcount
    rwa [Delimiter.unescaped, Delimiter.unescapedFrom_append, q.unescapedFrom_of_notMem _ hx,
      Nat.add_zero]
  · rintro h before t rest rfl ht
    rw [(Token.Lexed.append_iff.1 hl).1.countP_eq_unescaped]
    have hshape := hl.shape
    rcases ht with ht | ht
    · have htext : t.text = ['>'] := hshape.text_eq (by rw [ht]; rfl)
      exact h (Token.textOf before) '>' (Token.textOf rest) (by simp [htext]) rfl
    · have htext : t.text = ['/', '>'] := hshape.text_eq (by rw [ht]; rfl)
      have hbracket := h (Token.textOf before ++ ['/']) '>' (Token.textOf rest)
        (by simp [htext]) rfl
      have hslash : q.mark ∉ ['/'] := by cases q <;> decide
      rwa [Delimiter.unescaped, Delimiter.unescapedFrom_append,
        q.unescapedFrom_of_notMem _ hslash, Nat.add_zero] at hbracket

theorem getLast?_of_assign_blank (start : Text) {space : Text} (hs : ∀ c ∈ space, isSpace c) :
    (start ++ '=' :: space).getLast? ≠ some '\\' ∧
      (Text.dropEndWhile isSpace (start ++ '=' :: space)).getLast? = some '=' := by
  constructor
  · intro h
    rw [List.getLast?_append, List.getLast?_cons, Option.some_or, ← List.getLast?_cons] at h
    rcases List.mem_cons.1 (List.mem_of_getLast? h) with h | h
    · cases h
    · exact absurd (hs _ h) (by decide)
  · have hs' : ∀ c ∈ space.reverse, isSpace c := by simpa using hs
    simp [Text.dropEndWhile, List.dropWhile_append_of_pos hs', isSpace]

theorem unassigned_of_lexed {tokens : List Token} {following : Text}
    (hl : Token.Lexed tokens following) (h : Text.Unassigned (Token.textOf tokens)) :
    Unassigned tokens := by
  rintro t rest ⟨before, rfl⟩ ht
  refine Bool.eq_false_iff.2 fun hnext => ?_
  obtain ⟨space, quote, after, rfl, hblank, hquote⟩ := quoteNext_iff.1 hnext
  obtain ⟨-, htail⟩ := Token.Lexed.append_iff.1 hl
  obtain - | ⟨hassign, htail⟩ := htail
  obtain ⟨hspace, - | ⟨hmark, -⟩⟩ := Token.Lexed.append_iff.1 htail
  have hassignText : t.text = ['='] := hassign.text_eq (by rw [ht]; rfl)
  obtain ⟨q, hq⟩ := Delimiter.isQuote_iff.1 hquote
  have hmarkText : quote.text = [q.mark] := hmark.text_eq_of_quote hq
  obtain ⟨hescape, hlast⟩ := getLast?_of_assign_blank (Token.textOf before)
    (isSpace_of_blank hblank hspace)
  refine h (Token.textOf before ++ '=' :: Token.textOf space) q.mark (Token.textOf after)
    (by simp [hassignText, hmarkText]) ?_ hescape hlast
  cases q <;> simp [Delimiter.mark]

theorem legible_of_recoverable {e : Entry} (h : e.Recoverable) {inner : List Token} {finish : Token}
    {following : Text} (hl : Token.Lexed (inner ++ [finish]) following)
    (hinner : Token.textOf inner = e.value) (hk : finish.kind = e.delimiter.kind) :
    Legible inner finish := by
  obtain ⟨hlinner, - | ⟨hfinish, -⟩⟩ := Token.Lexed.append_iff.1 hl
  have htext : finish.text = [e.delimiter.mark] := hfinish.text_eq_of_quote hk
  have heven : inner.countP (·.kind == finish.kind) % 2 = 0 := by
    rw [hk, hlinner.countP_eq_unescaped, hinner]
    exact h.even
  refine ⟨heven, ?_, unassigned_of_lexed hl ?_⟩
  · refine (sheltered_iff_enclosed (Delimiter.isQuote_iff.2 ⟨_, hk⟩) heven).2 ?_
    rw [hk, enclosed_iff_shelters hlinner, hinner]
    exact h.sheltered
  · simpa [hinner, htext] using h.unassigned

/-! ## The tokens of a spelling -/

theorem all_head?_append {p : Char → Bool} {s t : Text} (hs : ∀ c ∈ s, p c)
    (ht : s = [] → t.head?.all p) : (s ++ t).head?.all p := by
  cases s with
  | nil => exact ht rfl
  | cons c s => simpa using hs c List.mem_cons_self

theorem not_isNameChar_of_all {space : Text} (h : space.all isSpace) :
    ∀ c ∈ space, !isNameChar c := fun c hc =>
  Token.not_isNameChar_of_isSpace (List.all_eq_true.1 h c hc)

theorem exists_blank {space rest : Text} (hs : ∀ c ∈ space, isSpace c)
    (hrest : rest.head?.all (!isSpace ·)) (p : Place) :
    ∃ before, Blank before ∧ listAt p (space ++ rest) = before ++ listAt (p.past space) rest := by
  by_cases hnil : space = []
  · subst hnil
    exact ⟨[], by simp [Blank], rfl⟩
  · refine ⟨[⟨.whitespace, space, p.offset, p.line⟩], by simp [Blank, Token.isWhitespace], ?_⟩
    exact Token.listAt_of_shape (.whitespace hnil hs hrest) p

theorem exists_token {s rest : Text} {kind : Token.Kind} (h : Token.Shape kind s rest) (p : Place) :
    ∃ t : Token, t.kind = kind ∧ t.text = s ∧ t.start = p.offset ∧
      listAt p (s ++ rest) = t :: listAt (p.past s) rest :=
  ⟨⟨kind, s, p.offset, p.line⟩, rfl, rfl, rfl, Token.listAt_of_shape h p⟩

theorem exists_blank_token {space s rest : Text} {kind : Token.Kind} (hs : ∀ c ∈ space, isSpace c)
    (h : Token.Shape kind s rest) (hk : kind ≠ .whitespace) (p : Place) :
    ∃ before t, Blank before ∧ t.kind = kind ∧ t.text = s ∧
      t.start = p.offset + Text.byteSize space ∧
      listAt p (space ++ (s ++ rest)) = before ++ t :: listAt (p.past (space ++ s)) rest := by
  obtain ⟨before, hb, hlist⟩ := exists_blank hs (h.head?_of_ne_whitespace hk rest) p
  obtain ⟨t, ht, htext, hstart, htoken⟩ := exists_token h (p.past space)
  refine ⟨before, t, hb, ht, htext, hstart, ?_⟩
  rw [hlist, htoken, Place.past_append]

theorem exists_openingMark {lead rest : Text} (hlead : ∀ c ∈ lead, isSpace c)
    (hname : opensName rest) (p : Place) :
    ∃ mark before, OpeningMark mark before ∧ mark.start = p.offset ∧ mark.line = p.line ∧
      listAt p ('<' :: (lead ++ rest)) =
        mark :: (before ++ listAt (p.past ('<' :: lead)) rest) := by
  by_cases hnil : lead = []
  · subst hnil
    refine ⟨⟨.tagStart, ['<'], p.offset, p.line⟩, [], .joined rfl, rfl, rfl, ?_⟩
    exact Token.listAt_of_shape (.tagStart hname) p
  · have hhead : rest.head?.all (!isSpace ·) := by
      cases rest with
      | nil => rfl
      | cons c rest => simpa using Token.not_isSpace_of_isUpper hname
    have hmark : Token.Shape .leftAngle ['<'] (lead ++ rest) := by
      obtain ⟨c, lead, rfl⟩ := List.exists_cons_of_ne_nil hnil
      have hc : isSpace c := hlead c List.mem_cons_self
      refine .leftAngle (Bool.eq_false_iff.2 fun h => ?_) ?_
      · rw [Token.not_isSpace_of_isUpper h] at hc
        cases hc
      · have hslash : c ≠ '/' := by
          rintro rfl
          cases hc
        simp [opensEnd, hslash]
    obtain ⟨space, hspace, -, -, hlist⟩ :=
      exists_token (.whitespace hnil hlead hhead) (p.past ['<'])
    refine ⟨⟨.leftAngle, ['<'], p.offset, p.line⟩, [space],
      .spaced rfl (by simp [Token.isWhitespace, hspace]), rfl, rfl, ?_⟩
    rw [← List.singleton_append, Token.listAt_of_shape hmark, hlist, ← Place.past_append]
    rfl

theorem exists_legible {e : Entry} (h : e.Recoverable) (rest : Text) (p : Place) :
    ∃ inner finish, Legible inner finish ∧ finish.kind = e.delimiter.kind ∧
      Token.textOf inner = e.value ∧
      listAt p (e.value ++ e.delimiter.mark :: rest) =
        inner ++ finish :: listAt (p.past (e.value ++ [e.delimiter.mark])) rest := by
  have hsplit := Token.listAt_append (Token.cut_mark e.delimiter h.unescaped rest) p
  have hfinish := Token.listAt_of_shape (.quote e.delimiter rest) (p.past e.value)
  rw [← Place.past_append, List.singleton_append] at hfinish
  rw [hfinish] at hsplit
  refine ⟨_, _, ?_, rfl, Token.textOf_listFrom .., hsplit⟩
  have hlexed : Token.Lexed (listAt p (e.value ++ e.delimiter.mark :: rest)) [] :=
    Token.lexed_listFrom ..
  rw [hsplit, List.append_cons] at hlexed
  exact legible_of_recoverable h (Token.Lexed.append_iff.1 hlexed).1 (Token.textOf_listFrom ..) rfl

theorem exists_legibleValue {e : Entry} (h : e.Recoverable) (rest : Text) (p : Place) :
    ∃ written, LegibleValue e.value written ∧
      listAt p (e.beforeAssign ++ '=' ::
          (e.afterAssign ++ e.delimiter.mark :: (e.value ++ e.delimiter.mark :: rest))) =
        written ++ listAt (p.past (e.beforeAssign ++ '=' ::
          (e.afterAssign ++ e.delimiter.mark :: (e.value ++ [e.delimiter.mark])))) rest := by
  have hmark : e.delimiter.kind ≠ .whitespace := by cases e.delimiter <;> decide
  obtain ⟨before, assign, hb, ha, -, -, hbefore⟩ := exists_blank_token
    (List.all_eq_true.1 e.beforeAssign_space)
    (.assign (e.afterAssign ++ e.delimiter.mark :: (e.value ++ e.delimiter.mark :: rest)))
    (by decide) p
  obtain ⟨between, opening, hm, ho, -, -, hbetween⟩ := exists_blank_token
    (List.all_eq_true.1 e.afterAssign_space)
    (.quote e.delimiter (e.value ++ e.delimiter.mark :: rest)) hmark
    (p.past (e.beforeAssign ++ ['=']))
  obtain ⟨inner, finish, hl, hf, hinner, hvalue⟩ := exists_legible h rest
    ((p.past (e.beforeAssign ++ ['='])).past (e.afterAssign ++ [e.delimiter.mark]))
  have hquote : opening.kind.isQuote := Delimiter.isQuote_iff.2 ⟨e.delimiter, ho⟩
  refine ⟨_, hinner ▸ LegibleValue.mk hb ha hm hquote hl (hf.trans ho.symm), ?_⟩
  simp only [List.singleton_append] at hbefore hbetween
  rw [hbefore, hbetween, hvalue]
  simp [← Place.past_append]

theorem exists_legibleEntry {e : Entry} (h : e.Recoverable) (rest : Text) (p : Place) :
    ∃ lead key written, Blank lead ∧ key.kind = .identifier ∧ key.text = e.key ∧
      LegibleValue e.value written ∧
      listAt p (e.text ++ rest) = lead ++ key :: (written ++ listAt (p.past e.text) rest) := by
  have hkey : Token.Shape .identifier e.key (e.beforeAssign ++ '=' ::
      (e.afterAssign ++ e.delimiter.mark :: (e.value ++ e.delimiter.mark :: rest))) :=
    .identifier e.key_ne_nil (List.all_eq_true.1 e.key_chars) (all_head?_append
      (not_isNameChar_of_all e.beforeAssign_space) fun _ => rfl)
  obtain ⟨lead, key, hl, hk, htext, -, hlead⟩ := exists_blank_token
    (List.all_eq_true.1 e.lead_space) hkey (by decide) p
  obtain ⟨written, hv, hwritten⟩ := exists_legibleValue h rest (p.past (e.lead ++ e.key))
  refine ⟨lead, key, written, hl, hk, htext, hv, ?_⟩
  rw [hwritten, ← Place.past_append] at hlead
  simpa [Entry.text] using hlead

theorem exists_legibleAttributes {entries : List Entry} (h : ∀ e ∈ entries, e.Recoverable)
    {trail terminator rest : Text} {kind : Token.Kind} (htrail : ∀ c ∈ trail, isSpace c)
    (hterminator : Token.Shape kind terminator rest) (hk : kind ≠ .whitespace) (p : Place) :
    ∃ space tokens t after, Blank space ∧ LegibleAttributes (entries.map Entry.pair) tokens ∧
      t.kind = kind ∧
      t.stop = p.offset + Text.byteSize (entries.flatMap Entry.text ++ (trail ++ terminator)) ∧
      listAt p (entries.flatMap Entry.text ++ (trail ++ (terminator ++ rest))) =
        space ++ (tokens ++ t :: after) := by
  induction entries generalizing p with
  | nil =>
    obtain ⟨space, t, hs, ht, htext, hstart, hlist⟩ := exists_blank_token htrail hterminator hk p
    refine ⟨space, [], t, _, hs, .nil, ht, ?_, hlist⟩
    simp [Token.stop, hstart, htext, Nat.add_assoc]
  | cons e entries ih =>
    obtain ⟨he, hentries⟩ := List.forall_mem_cons.1 h
    obtain ⟨lead, key, written, hl, hk', htext, hv, hentry⟩ := exists_legibleEntry he
      (entries.flatMap Entry.text ++ (trail ++ (terminator ++ rest))) p
    -- the white space before the next part follows this value
    obtain ⟨space, tokens, t, after, hs, ha, ht, hstop, hlist⟩ := ih hentries (p.past e.text)
    refine ⟨lead, key :: (written ++ (space ++ tokens)), t, after, hl, ?_, ht, ?_, ?_⟩
    · have hcons := LegibleAttributes.cons hk' hv hs ha
      rwa [htext] at hcons
    · simp [hstop, Nat.add_assoc]
    · rw [List.flatMap_cons, List.append_assoc, hentry, hlist]
      simp

namespace Spelling

variable (s : Spelling)

theorem name_ne_nil : s.name ≠ [] := by
  intro h
  have hname := s.name_opens
  rw [h] at hname
  cases hname

theorem shape_name (hlead : ∀ e ∈ s.entries.head?, e.lead ≠ []) (after : Text) :
    Token.Shape .identifier s.name
      (s.entries.flatMap Entry.text ++ (s.trail ++ (s.terminator ++ after))) := by
  refine .identifier s.name_ne_nil (List.all_eq_true.1 s.name_chars) ?_
  cases hentries : s.entries with
  | nil =>
    rw [List.flatMap_nil, List.nil_append]
    refine all_head?_append (not_isNameChar_of_all s.trail_space) fun _ => ?_
    unfold terminator
    split <;> rfl
  | cons e entries =>
    have hne : e.lead ≠ [] := hlead e (by simp [hentries])
    rw [List.flatMap_cons, Entry.text, List.append_assoc, List.append_assoc]
    exact all_head?_append (not_isNameChar_of_all e.lead_space) fun h => absurd h hne

theorem exists_shape_terminator (after : Text) :
    ∃ kind, Token.Shape kind s.terminator after ∧
      (s.kind = .opening ∧ kind = .rightAngle ∨ s.kind = .selfClosing ∧ kind = .selfClosing) := by
  unfold terminator Spelling.kind
  split
  · exact ⟨_, .selfClosing after, .inr ⟨rfl, rfl⟩⟩
  · exact ⟨_, .rightAngle after, .inl ⟨rfl, rfl⟩⟩

end Spelling

theorem next?_spelled (s : Spelling) (hlead : ∀ e ∈ s.entries.head?, e.lead ≠ [])
    (hentries : ∀ e ∈ s.entries, e.Recoverable) (after : Text) (p : Place) :
    ∃ rest, next? (listAt p (s.text ++ after)) =
      .ok (some ({ name := s.name, kind := s.kind, attributes := Keyed.ofList s.attributes
                   span := ⟨p.offset, p.offset + Text.byteSize s.text⟩
                   line := p.line }, rest)) := by
  obtain ⟨kind, hterminator, hkind⟩ := s.exists_shape_terminator after
  have hwhite : kind ≠ .whitespace := by
    rcases hkind with ⟨-, rfl⟩ | ⟨-, rfl⟩ <;> decide
  have hopens : opensName
      (s.name ++ (s.entries.flatMap Entry.text ++ (s.trail ++ (s.terminator ++ after)))) := by
    rw [Token.opensName_append s.name_ne_nil]
    exact s.name_opens
  obtain ⟨mark, before, hm, hstart, hline, hmark⟩ :=
    exists_openingMark (List.all_eq_true.1 s.lead_space) hopens p
  obtain ⟨name, hidentifier, htext, -, hname⟩ :=
    exists_token (s.shape_name hlead after) (p.past ('<' :: s.lead))
  obtain ⟨space, tokens, t, rest, hs, hl, ht, hstop, hrest⟩ :=
    exists_legibleAttributes hentries (List.all_eq_true.1 s.trail_space) hterminator hwhite
      ((p.past ('<' :: s.lead)).past s.name)
  have hisName : name.isTagName := by
    simp [Token.isTagName, hidentifier, htext, s.name_opens]
  have hread := readOpening_of_legible mark name hs hl (ht ▸ hkind) rest
  have hbytes : t.stop = p.offset + Text.byteSize s.text := by
    rw [hstop]
    simp [Spelling.text, Nat.add_assoc]
  refine ⟨rest, ?_⟩
  have hlist : listAt p (s.text ++ after) =
      mark :: (before ++ name :: (space ++ (tokens ++ t :: rest))) := by
    rw [← hrest, ← hname, ← hmark]
    simp [Spelling.text]
  rw [hlist, next?_of_openingMark hm hisName hread, htext, hstart, hline, hbytes]
  rfl

/-- The search passes over text without a `<`. -/
theorem next?_listAt_append {before text : Text} (hbefore : '<' ∉ before)
    (htext : text.head? = some '<') (p : Place) :
    next? (listAt p (before ++ text)) = next? (listAt (p.past before) text) := by
  have hplain : Token.Plain before := by
    have := (Token.plain_append_of_notMem hbefore []).2 trivial
    rwa [List.append_nil] at this
  refine next?_plain hplain ?_ p
  rw [htext]
  rfl

theorem firstHeadOfTokens_of_next? {tokens after : List Token} {tag : Tag}
    (h : next? tokens = .ok (some (tag, after))) (hk : tag.isClosing = false) :
    firstHeadOfTokens tokens = .ok (some tag) := by
  rw [firstHeadOfTokens]
  split <;> simp_all

/-- A tag that is spelled after text without a `<` is read back with its name, its kind, the last
value of each attribute as it is written, and the place of its text. -/
theorem firstHead_spelled {before : Text} (hbefore : '<' ∉ before) {s : Spelling}
    (hlead : ∀ e ∈ s.entries.head?, e.lead ≠ []) (hentries : ∀ e ∈ s.entries, e.Recoverable)
    (after : Text) :
    ∃ attributes, Keyed.KeepsLast s.attributes attributes ∧
      firstHead (before ++ (s.text ++ after)) =
        .ok (some { name := s.name, kind := s.kind, attributes
                    span := ⟨Text.byteSize before, Text.byteSize before + Text.byteSize s.text⟩
                    line := 1 + Text.lineBreaks before }) := by
  refine ⟨Keyed.ofList s.attributes, Keyed.keepsLast_ofList _, ?_⟩
  obtain ⟨rest, hnext⟩ := next?_spelled s hlead hentries after (Place.first.past before)
  rw [← next?_listAt_append hbefore rfl] at hnext
  have hkind : s.kind ≠ .closing := by
    unfold Spelling.kind
    split <;> decide
  have hread := firstHeadOfTokens_of_next? hnext (by simp [isClosing, hkind])
  simp only [Place.offset_past, Place.line_past, Place.first, Nat.zero_add] at hread
  exact hread

/-- Values with brackets, with quotes of both kinds and with an escaped one, under one name. -/
def quotedSpelling : Spelling where
  lead := [' ']
  name := ['C', 'a', 'r', 'd']
  entries := [
    { lead := [' '], key := ['t', 'o'], beforeAssign := [' '], afterAssign := ['\n']
      delimiter := .double, value := "it's \"a\" > b\\\" <Box n=1/>".toList },
    { lead := [], key := ['t', 'o'], beforeAssign := [], afterAssign := []
      delimiter := .single, value := "\"x\" 'y' >".toList }]
  trail := ['\t']
  isSelfClosing := true

theorem firstHead_spelled_quotedSpelling :
    '<' ∉ ['a', '\n'] ∧ (∀ e ∈ quotedSpelling.entries.head?, e.lead ≠ []) ∧
      (∀ e ∈ quotedSpelling.entries, e.Recoverable) ∧
      ∃ attributes, Keyed.KeepsLast quotedSpelling.attributes attributes ∧
        firstHead (['a', '\n'] ++ (quotedSpelling.text ++ ['\'', '>'])) =
          .ok (some ⟨['C', 'a', 'r', 'd'], .selfClosing, attributes, ⟨2, 58⟩, 2⟩) :=
  ⟨by decide, by decide, by decide, firstHead_spelled (by decide) (by decide) (by decide) _⟩

end Tag
end ComponentTags
