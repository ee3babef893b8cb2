import ComponentTags.Proofs.Tag.Recovery

/-!
# Values on their own

What is read of the tokens of a value, whatever stands around it. A value without quotes can end
like the beginning of an attribute, so that its closing quote is taken for the opening quote of
another value. A value with quotes can hold a bracket behind an odd number of them, and then the
head ends there.
-/

namespace ComponentTags

/-- A bracket in a value that ends the head: the quotes before it, with the opening one, are even in
number, and nothing but white space stands between the last of them and the bracket. -/
structure Delimiter.Cutoff (q : Delimiter) (value : Text) where
  /-- What the value is then. -/
  part : Text
  space : Text
  isSelfClosing : Bool
  rest : Text
  value_eq : value =
    part ++ q.mark :: (space ++ ((if isSelfClosing then ['/', '>'] else ['>']) ++ rest))
  even : q.unescaped part % 2 = 0
  sheltered : q.Shelters part
  unescaped : part.getLast? ≠ some '\\'
  space_space : space.all Token.isSpace

/-- Such a bracket is looked for behind every quote. -/
theorem Delimiter.nonempty_cutoff_iff {q : Delimiter} {value : Text} :
    Nonempty (q.Cutoff value) ↔ ∃ i : Fin value.length, value.get i = q.mark ∧
      q.unescaped (value.take i) % 2 = 0 ∧ q.Shelters (value.take i) ∧
      (value.take i).getLast? ≠ some '\\' ∧
      (['>'] <+: (value.drop (i + 1)).dropWhile Token.isSpace ∨
        ['/', '>'] <+: (value.drop (i + 1)).dropWhile Token.isSpace) := by
  constructor
  · rintro ⟨⟨part, space, isSelfClosing, rest, rfl, heven, hsheltered, hlast, hspace⟩⟩
    refine ⟨⟨part.length, by simp⟩, by simp, by simpa using heven, by simpa using hsheltered,
      by simpa using hlast, ?_⟩
    have hspace : ∀ c ∈ space, Token.isSpace c := List.all_eq_true.1 hspace
    have hbracket : Token.isSpace '>' = false ∧ Token.isSpace '/' = false := ⟨rfl, rfl⟩
    cases isSelfClosing <;> simp [List.dropWhile_append_of_pos hspace, hbracket]
  · rintro ⟨i, hmark, heven, hsheltered, hlast, hbracket⟩
    have hvalue : value = value.take i ++ q.mark :: ((value.drop (i + 1)).takeWhile Token.isSpace ++
        (value.drop (i + 1)).dropWhile Token.isSpace) := by
      rw [List.takeWhile_append_dropWhile, ← hmark]
      simp
    rcases hbracket with ⟨rest, hrest⟩ | ⟨rest, hrest⟩
    · exact ⟨⟨_, _, false, rest, hrest ▸ hvalue, heven, hsheltered, hlast, List.all_takeWhile⟩⟩
    · exact ⟨⟨_, _, true, rest, hrest ▸ hvalue, heven, hsheltered, hlast, List.all_takeWhile⟩⟩

instance (q : Delimiter) (value : Text) : Decidable (Nonempty (q.Cutoff value)) :=
  decidable_of_iff _ Delimiter.nonempty_cutoff_iff.symm

namespace Text

open Token (isSpace isNameChar)

theorem Unassigned.append_left {s t : Text} (h : Unassigned (s ++ t)) : Unassigned s :=
  fun before c after hs => h before c (after ++ t) (by rw [hs]; simp)

/-- Whether the text ends in a character of a name and a `=`, with white space allowed after both of
them. -/
def endsInAssignment (s : Text) : Bool :=
  match s.reverse.dropWhile isSpace with
  | '=' :: rest => (rest.dropWhile isSpace).head?.any isNameChar
  | _ => false

theorem endsInAssignment_iff {s : Text} :
    s.endsInAssignment ↔ ∃ before c space space', s = before ++ c :: (space ++ '=' :: space') ∧
      isNameChar c ∧ (∀ d ∈ space, isSpace d) ∧ ∀ d ∈ space', isSpace d := by
  have space_of (s : Text) : ∀ d ∈ s.takeWhile isSpace, isSpace d :=
    List.all_eq_true.1 List.all_takeWhile
  constructor
  · intro h
    unfold endsInAssignment at h
    split at h
    · next rest hrest =>
      obtain ⟨c, hhead, hc⟩ := (Option.any_eq_true ..).1 h
      obtain ⟨before, hbefore⟩ := List.head?_eq_some_iff.1 hhead
      refine ⟨before.reverse, c, (rest.takeWhile isSpace).reverse,
        (s.reverse.takeWhile isSpace).reverse, ?_, hc, by simpa using space_of rest,
        by simpa using space_of s.reverse⟩
      refine List.reverse_injective ?_
      conv_lhs => rw [← List.takeWhile_append_dropWhile (p := isSpace) (l := s.reverse), hrest,
        ← List.takeWhile_append_dropWhile (p := isSpace) (l := rest), hbefore]
      simp
    · cases h
  · rintro ⟨before, c, space, space', rfl, hc, hspace, hspace'⟩
    have hname : isSpace c = false := Token.not_isSpace_of_isNameChar hc
    have hspace : ∀ d ∈ space.reverse, isSpace d := by simpa using hspace
    have hspace' : ∀ d ∈ space'.reverse, isSpace d := by simpa using hspace'
    have hassign : isSpace '=' = false := rfl
    simp [endsInAssignment, List.dropWhile_append_of_pos hspace',
      List.dropWhile_append_of_pos hspace, hassign, hname, hc]

end Text

namespace Tag

open Token (isSpace)

variable {q : Delimiter} {tokens : List Token} {following : Text}

theorem blank_of_isSpace (hl : Token.Lexed tokens following)
    (h : ∀ c ∈ Token.textOf tokens, isSpace c) : Blank tokens := by
  intro t ht
  obtain ⟨after, hshape⟩ := hl.exists_shape_of_mem ht
  obtain ⟨c, s, hs⟩ := List.exists_cons_of_ne_nil hshape.ne_nil
  have hc : c ∈ t.text := hs ▸ List.mem_cons_self
  simp [Token.isWhitespace, hshape.kind_of_isSpace hc (h c (List.mem_flatMap.2 ⟨t, ht, hc⟩))]

/-! ## Ends of values -/

/-- The tokens end in a name and a `=`, with white space allowed after both of them. -/
def EndsInAssignment (tokens : List Token) : Prop :=
  ∃ before key space assign space', tokens = before ++ key :: (space ++ assign :: space') ∧
    key.kind = .identifier ∧ Blank space ∧ assign.kind = .assign ∧ Blank space'

theorem endsInAssignment_iff (hl : Token.Lexed tokens following) :
    EndsInAssignment tokens ↔ (Token.textOf tokens).endsInAssignment := by
  rw [Text.endsInAssignment_iff]
  constructor
  · rintro ⟨before, key, space, assign, space', rfl, hkey, hspace, hassign, hspace'⟩
    obtain ⟨-, - | ⟨hkeyShape, hl⟩⟩ := Token.Lexed.append_iff.1 hl
    obtain ⟨hspaceLexed, - | ⟨hassignShape, hspaceLexed'⟩⟩ := Token.Lexed.append_iff.1 hl
    have hassignText : assign.text = ['='] := hassignShape.text_eq (by rw [hassign]; rfl)
    obtain ⟨start, c, hkeyText⟩ : ∃ start c, key.text = start ++ [c] :=
      ⟨_, _, (List.dropLast_append_getLast hkeyShape.ne_nil).symm⟩
    refine ⟨Token.textOf before ++ start, c, Token.textOf space, Token.textOf space', ?_,
      hkeyShape.isNameChar_of_identifier hkey c (by simp [hkeyText]),
      isSpace_of_blank hspace hspaceLexed, isSpace_of_blank hspace' hspaceLexed'⟩
    simp [hkeyText, hassignText]
  · rintro ⟨before, c, space, space', htext, hc, hspace, hspace'⟩
    have htext : Token.textOf tokens = (before ++ c :: space) ++ '=' :: space' := by
      simpa using htext
    obtain ⟨init, assign, tail, x, y, rfl, hassign, hinit, rfl⟩ :=
      Token.exists_token_of_textOf htext
    obtain ⟨hassignKind, hassignText⟩ := hl.shape.eq_assign (by simp [hassign])
    obtain ⟨rfl, rfl⟩ : x = [] ∧ y = [] := by
      rw [hassignText] at hassign
      cases x <;> simp_all
    obtain ⟨hinitLexed, - | ⟨-, htailLexed⟩⟩ := Token.Lexed.append_iff.1 hl
    rw [List.append_nil] at hinit
    obtain ⟨init, key, tail', x, y, rfl, hkey, -, rfl⟩ := Token.exists_token_of_textOf hinit.symm
    have hkeyKind := hinitLexed.shape.kind_of_isNameChar (by simp [hkey]) hc
    obtain ⟨-, - | ⟨-, htailLexed'⟩⟩ := Token.Lexed.append_iff.1 hinitLexed
    refine ⟨init, key, tail', assign, tail, by simp, hkeyKind, ?_, hassignKind, ?_⟩
    · exact blank_of_isSpace htailLexed' fun d hd => hspace d (List.mem_append_right _ hd)
    · exact blank_of_isSpace htailLexed fun d hd => hspace' d hd

/-! ## Values without quotes -/

theorem splitAtAttribute_eq_self (h : ∀ rest, rest <:+ tokens → startsAttribute rest = false) :
    splitAtAttribute tokens = (tokens, []) := by
  induction tokens with
  | nil => rfl
  | cons t tokens ih =>
    exact splitAtAttribute_cons (h _ (List.suffix_refl _))
      (ih fun rest hrest => h rest (hrest.trans (List.suffix_cons ..)))

theorem prefix_of_splitAtAttribute {rest : List Token} (h : startsAttribute rest)
    (before : List Token) : (splitAtAttribute (before ++ rest)).1 <+: before := by
  induction before with
  | nil =>
    rw [List.nil_append, splitAtAttribute_attributeNext (.inr h)]
  | cons t before ih =>
    rw [List.cons_append, splitAtAttribute]
    split
    · exact List.nil_prefix
    · exact (List.prefix_cons_inj t).2 ih

theorem kind_beq_of_noQuotes {kind : Token.Kind} (hkind : kind.isQuote)
    (h : ∀ t ∈ tokens, t.kind.isQuote = false) : ∀ t ∈ tokens, (t.kind == kind) = false := by
  refine fun t ht => beq_eq_false_iff_ne.2 ?_
  rintro rfl
  rw [h t ht] at hkind
  cases hkind

theorem extent_of_noQuotes {kind : Token.Kind} (hkind : kind.isQuote) {inner : List Token}
    {finish space terminator : Token} (hinner : ∀ t ∈ inner, t.kind.isQuote = false)
    (hfinish : finish.kind = kind) (hspace : Blank [space])
    (hterminator : terminator.kind = .selfClosing) :
    extent ⟨some kind, true, false⟩ (inner ++ [finish, space, terminator]) =
      .ok ⟨inner ++ [finish, space], terminator, []⟩ := by
  subst hfinish
  have hkinds := kind_beq_of_noQuotes hkind hinner
  have hunassigned : Unassigned (inner ++ []) := by
    rw [List.append_nil]
    rintro t rest ⟨before, rfl⟩ -
    refine Bool.eq_false_iff.2 fun hnext => ?_
    obtain ⟨space, quote, after, rfl, -, hquote⟩ := quoteNext_iff.1 hnext
    simp [hinner quote (by simp)] at hquote
  have henclosed : Enclosed finish.kind inner := by
    rintro before t rest rfl -
    have hcount : before.countP (·.kind == finish.kind) = 0 :=
      List.countP_eq_zero.2 fun t ht => by simp [hkinds t (List.mem_append_left _ ht)]
    rw [hcount]
  have hcount : inner.countP (·.kind == finish.kind) = 0 :=
    List.countP_eq_zero.2 fun t ht => by simp [hkinds t ht]
  obtain ⟨afterAssign, -, hpasses⟩ := Passes.of_enclosed hkind henclosed hunassigned
  rw [hcount] at hpasses
  have hstop : extent ⟨some finish.kind, false, false⟩ [terminator] = .ok ⟨[], terminator, []⟩ :=
    extent_of_terminates rfl (.inr hterminator) []
  have hextent := ((hpasses.append (.closing hkind)).append (.blank _ hspace)) _ _ hstop
  simpa using hextent

section

variable {opening finish : Token} {inner : List Token}
  (hinner : ∀ t ∈ inner, t.kind.isQuote = false) (hopening : opening.kind.isQuote)
  (hfinish : finish.kind = opening.kind) (tag : Text)
include hinner hopening hfinish

theorem readValue_of_endsInAssignment (h : EndsInAssignment inner) (after : List Token) :
    readValue tag opening (inner ++ finish :: after) =
      .error (.unterminatedString tag opening.line) := by
  have hkinds := kind_beq_of_noQuotes hopening hinner
  obtain ⟨before, key, space, assign, space', rfl, hkey, hspace, hassign, hspace'⟩ := h
  have hnext : quoteNext (space' ++ finish :: after) :=
    quoteNext_iff.2 ⟨space', finish, after, rfl, hspace', hfinish ▸ hopening⟩
  have hstarts : startsAttribute (key :: (space ++ assign :: (space' ++ finish :: after))) :=
    startsAttribute_iff.2 ⟨key, space, assign, _, rfl, hkey, hspace, hassign, hnext⟩
  -- what is left of the value holds no quote that could close it
  have hnone : splitAtLast (·.kind == opening.kind) (splitAtAttribute
      (before ++ key :: (space ++ assign :: (space' ++ finish :: after)))).1 = none := by
    refine splitAtLast_eq_none fun t ht => hkinds t (List.mem_append_left _ ?_)
    exact (prefix_of_splitAtAttribute hstarts before).subset ht
  have hassoc : before ++ key :: (space ++ assign :: space') ++ finish :: after =
      before ++ key :: (space ++ assign :: (space' ++ finish :: after)) := by simp
  simp only [readValue, hassoc, hnone]

theorem readValue_of_not_endsInAssignment {after : List Token} (hafter : Blank after)
    (h : ¬ EndsInAssignment inner) :
    readValue tag opening (inner ++ finish :: after) = .ok (Token.textOf inner, []) := by
  have hafterQuotes : ∀ t ∈ after, t.kind.isQuote = false := by
    refine fun t ht => Bool.eq_false_iff.2 fun hquote => ?_
    simpa [isWhitespace_of_isQuote hquote] using hafter t ht
  have hsplit : splitAtAttribute (inner ++ finish :: after) = (inner ++ finish :: after, []) := by
    refine splitAtAttribute_eq_self ?_
    rintro rest ⟨before, heq⟩
    refine Bool.eq_false_iff.2 fun hstarts => h ?_
    obtain ⟨key, space, assign, rest, rfl, hkey, hspace, hassign, hnext⟩ :=
      startsAttribute_iff.1 hstarts
    obtain ⟨space', quote, rest, rfl, hspace', hquote⟩ := quoteNext_iff.1 hnext
    -- the quote of that attribute is the closing one, as there is no other
    have notMem {tokens : List Token} (htokens : ∀ t ∈ tokens, t.kind.isQuote = false) :
        quote ∉ tokens := fun hmem => by simp [htokens quote hmem] at hquote
    have heq : inner ++ finish :: after =
        (before ++ key :: (space ++ assign :: space')) ++ quote :: rest := by simpa using heq.symm
    obtain ⟨hinnerEq, -, -⟩ :=
      (List.append_cons_inj_of_notMem (notMem hinner) (notMem hafterQuotes)).1 heq
    exact ⟨before, key, space, assign, space', hinnerEq, hkey, hspace, hassign, hspace'⟩
  have hlast : splitAtLast (·.kind == opening.kind) (inner ++ finish :: after) =
      some (inner, after) :=
    splitAtLast_append_cons (by simp [hfinish]) (kind_beq_of_noQuotes hopening hafterQuotes) inner
  have hcount : inner.countP (·.kind == opening.kind) = 0 :=
    List.countP_eq_zero.2 fun t ht => by simp [kind_beq_of_noQuotes hopening hinner t ht]
  have hstray : after.find? (!·.isWhitespace) = none := by
    simpa [Blank] using hafter
  simp [readValue, hsplit, hlast, hcount, hstray, Token.textOf]

end

/-! ## Values with brackets outside of their quotes -/

theorem Enclosed.append_left {kind : Token.Kind} {tail : List Token}
    (h : Enclosed kind (tokens ++ tail)) : Enclosed kind tokens :=
  fun before t rest htokens => h before t (rest ++ tail) (by simp [htokens])

theorem enclosed_append_singleton {kind : Token.Kind} {t : Token} :
    Enclosed kind (tokens ++ [t]) ↔
      Enclosed kind tokens ∧ (Terminates t → tokens.countP (·.kind == kind) % 2 = 0) := by
  constructor
  · intro h
    refine ⟨fun before u rest htokens => ?_, h tokens t [] rfl⟩
    exact h before u (rest ++ [t]) (by simp [htokens])
  · rintro ⟨h, hlast⟩ before u rest htokens hu
    rcases List.eq_nil_or_concat rest with rfl | ⟨rest, t', rfl⟩
    · obtain ⟨rfl, hlastEq⟩ := List.append_inj' htokens rfl
      obtain rfl : t = u := by simpa using hlastEq
      exact hlast hu
    · have htokens : tokens ++ [t] = (before ++ u :: rest) ++ [t'] := by simpa using htokens
      exact h before u rest (List.append_inj' htokens rfl).1 hu

/-- The first bracket that stands after an odd number of quotes. -/
theorem exists_of_not_enclosed {kind : Token.Kind} (h : ¬ Enclosed kind tokens) :
    ∃ before t rest, tokens = before ++ t :: rest ∧ Terminates t ∧
      before.countP (·.kind == kind) % 2 = 1 ∧ Enclosed kind before := by
  induction tokens using List.reverseRecOn with
  | nil => exact absurd (fun before t rest htokens => by simp at htokens) h
  | append_singleton init u ih =>
    by_cases hinit : Enclosed kind init
    · have hlast := mt (fun hlast => enclosed_append_singleton.2 ⟨hinit, hlast⟩) h
      obtain ⟨hu, hodd⟩ := Classical.not_imp.1 hlast
      exact ⟨init, u, [], rfl, hu, by omega, hinit⟩
    · obtain ⟨before, t, rest, rfl, ht, hodd, hbefore⟩ := ih hinit
      exact ⟨before, t, rest ++ [u], by simp, ht, hodd, hbefore⟩

theorem Unassigned.append_left {tail : List Token} (h : Unassigned (tokens ++ tail)) :
    Unassigned tokens := by
  rintro t rest ⟨before, rfl⟩ ht
  have hnext := h t (rest ++ tail) ⟨before, by simp⟩ ht
  refine Bool.eq_false_iff.2 fun hquote => ?_
  obtain ⟨space, quote, after, rfl, hspace, hquote⟩ := quoteNext_iff.1 hquote
  have hquoteNext : quoteNext (space ++ quote :: after ++ tail) :=
    quoteNext_iff.2 ⟨space, quote, after ++ tail, by simp, hspace, hquote⟩
  rw [hnext] at hquoteNext
  cases hquoteNext

theorem Unassigned.splitAtAttribute_eq (h : Unassigned tokens) :
    splitAtAttribute tokens = (tokens, []) := by
  refine splitAtAttribute_eq_self ?_
  rintro rest ⟨before, rfl⟩
  refine Bool.eq_false_iff.2 fun hstarts => ?_
  obtain ⟨key, space, assign, rest, rfl, -, -, hassign, hquote⟩ := startsAttribute_iff.1 hstarts
  rw [h assign rest ⟨before ++ key :: space, by simp⟩ hassign] at hquote
  cases hquote

theorem exists_splitAtLast {α : Type} {p : α → Bool} {items : List α} (h : ∃ a ∈ items, p a) :
    ∃ before a after, items = before ++ a :: after ∧ p a ∧ (∀ b ∈ after, p b = false) := by
  induction items with
  | nil => simp at h
  | cons a items ih =>
    by_cases hitems : ∃ b ∈ items, p b
    · obtain ⟨before, b, after, rfl, hb, hafter⟩ := ih hitems
      exact ⟨a :: before, b, after, rfl, hb, hafter⟩
    · have ha : p a := by simpa [hitems] using h
      exact ⟨[], a, items, rfl, ha, by simpa using hitems⟩

/-- What is read of a value that is cut off after an odd number of quotes: its last quote closes it,
and nothing but white space may stand behind. -/
theorem exists_readValue_of_odd {kind : Token.Kind} (hunassigned : Unassigned tokens)
    (hodd : tokens.countP (·.kind == kind) % 2 = 1) (tag : Text) :
    ∃ value finish trailing, tokens = value ++ finish :: trailing ∧ finish.kind = kind ∧
      value.countP (·.kind == kind) % 2 = 0 ∧
      ∀ opening : Token, opening.kind = kind → readValue tag opening tokens =
        match trailing.find? (!·.isWhitespace) with
        | some stray => .error (unexpected tag "another attribute" stray)
        | none => .ok (Token.textOf value, []) := by
  have hexists : ∃ t ∈ tokens, t.kind == kind := by
    refine List.countP_pos_iff.1 ?_
    omega
  obtain ⟨value, finish, trailing, rfl, hfinish, htrailing⟩ := exists_splitAtLast hexists
  have hlast := splitAtLast_append_cons (p := (·.kind == kind)) hfinish htrailing value
  have hnone : trailing.countP (·.kind == kind) = 0 :=
    List.countP_eq_zero.2 fun t ht => by simpa using htrailing t ht
  have heven : value.countP (·.kind == kind) % 2 = 0 := by
    rw [List.countP_append, List.countP_cons, if_pos hfinish, hnone] at hodd
    omega
  refine ⟨value, finish, trailing, rfl, beq_iff_eq.1 hfinish, heven, ?_⟩
  rintro opening rfl
  cases hstray : trailing.find? (!·.isWhitespace) with
  | some stray =>
    simp only [readValue, hunassigned.splitAtAttribute_eq, hlast, heven, hstray, Nat.zero_ne_one,
      if_false]
  | none =>
    simp only [readValue, hunassigned.splitAtAttribute_eq, hlast, heven, hstray, Nat.zero_ne_one,
      if_false, Token.textOf]

theorem getLast?_ne_of_lexed {finish : Token} {rest : List Token}
    (hl : Token.Lexed (tokens ++ finish :: rest) following) (hk : finish.kind = q.kind) :
    (Token.textOf tokens).getLast? ≠ some '\\' := by
  intro hlast
  rcases List.eq_nil_or_concat tokens with rfl | ⟨init, t, rfl⟩
  · cases hlast
  · have hfinish : finish.text = [q.mark] := hl.shape.text_eq_of_quote hk
    have ht : Token.Shape t.kind t.text (Token.textOf (finish :: rest) ++ following) := by
      rw [List.concat_eq_append, List.append_assoc] at hl
      exact hl.shape
    refine ht.head?_ne_of_backslash ?_ q (by simp [hfinish])
    rwa [List.concat_eq_append, Token.textOf_append, Token.textOf_cons, Token.textOf_nil,
      List.append_nil, List.getLast?_append_of_ne_nil _ ht.ne_nil] at hlast

/-- A bracket that ends the head right behind the quotes of a value. -/
theorem nonempty_cutoff {value trailing rest : List Token} {quote t : Token}
    (hl : Token.Lexed ((value ++ quote :: trailing) ++ t :: rest) following)
    (henclosed : Enclosed q.kind value) (heven : value.countP (·.kind == q.kind) % 2 = 0)
    (hquote : quote.kind = q.kind) (htrailing : Blank trailing) (ht : Terminates t) :
    Nonempty (q.Cutoff (Token.textOf ((value ++ quote :: trailing) ++ t :: rest))) := by
  obtain ⟨hbefore, - | ⟨hterminator, -⟩⟩ := Token.Lexed.append_iff.1 hl
  obtain ⟨hvalue, - | ⟨hquoteShape, htrailingLexed⟩⟩ := Token.Lexed.append_iff.1 hbefore
  have hquoteText : quote.text = [q.mark] := hquoteShape.text_eq_of_quote hquote
  have htext : t.text = if t.kind == .selfClosing then ['/', '>'] else ['>'] := by
    refine hterminator.text_eq ?_
    rcases ht with ht | ht <;> rw [ht] <;> rfl
  exact ⟨{
    part := Token.textOf value, space := Token.textOf trailing
    isSelfClosing := t.kind == .selfClosing, rest := Token.textOf rest
    value_eq := by rw [← htext]; simp [hquoteText]
    even := hvalue.countP_eq_unescaped q ▸ heven
    sheltered := (enclosed_iff_shelters hvalue).1 henclosed
    unescaped := getLast?_ne_of_lexed hbefore hquote
    space_space := List.all_eq_true.2 (isSpace_of_blank htrailing htrailingLexed) }⟩

end Tag

end ComponentTags
