import ComponentTags.Proofs.Tag.Value

/-!
# Values that are read back

A self-closing tag with a single attribute, for every value it may be written with. A value without
quotes is read back as it stands, unless it ends like the beginning of an attribute. So is a value
whose quotes are even in number and open no other attribute, unless a bracket stands behind an odd
number of them. Then the tag ends there, or something stands in the way of that and the tag is
refused.
-/

namespace ComponentTags.Tag

open Token (isSpace isNameChar listAt)

/-- A self-closing tag with one attribute, as it is written. -/
structure SingleHead where
  name : Text
  key : Text
  delimiter : Delimiter
  value : Text
  name_opens : Token.opensName name := by decide
  name_chars : name.all isNameChar := by decide
  key_ne_nil : key ≠ [] := by decide
  key_chars : key.all isNameChar := by decide

namespace SingleHead

variable (h : SingleHead)

/-- What stands before the value. -/
def lead : Text :=
  '<' :: (h.name ++ ' ' :: (h.key ++ ['=', h.delimiter.mark]))

def text : Text :=
  h.lead ++ (h.value ++ [h.delimiter.mark, ' ', '/', '>'])

def tag : Tag where
  name := h.name
  kind := .selfClosing
  attributes := [(h.key, h.value)]
  span := ⟨0, Text.byteSize h.text⟩
  line := 1

theorem name_ne_nil : h.name ≠ [] := by
  intro hname
  have hopens := h.name_opens
  rw [hname] at hopens
  cases hopens

theorem lineBreaks_of_isNameChar {s : Text} (hs : s.all isNameChar) : Text.lineBreaks s = 0 := by
  refine List.count_eq_zero.2 fun hmem => ?_
  cases List.all_eq_true.1 hs _ hmem

theorem isQuote_kind : h.delimiter.kind.isQuote :=
  Delimiter.isQuote_iff.2 ⟨h.delimiter, rfl⟩

/-- The tokens before the value. -/
theorem exists_tokens_lead (rest : Text) :
    ∃ name space key assign opening, Token.list (h.lead ++ rest) =
        ⟨.tagStart, ['<'], 0, 1⟩ :: name :: space :: key :: assign :: opening ::
          listAt (Place.first.past h.lead) rest ∧
      name.text = h.name ∧ space.isWhitespace ∧ key.kind = .identifier ∧ key.text = h.key ∧
      assign.kind = .assign ∧ opening.kind = h.delimiter.kind ∧ opening.line = 1 := by
  let afterKey : Text := ['='] ++ ([h.delimiter.mark] ++ rest)
  have hmark : Token.Shape .tagStart ['<'] (h.name ++ ([' '] ++ (h.key ++ afterKey))) := by
    refine .tagStart ?_
    rw [Token.opensName_append h.name_ne_nil]
    exact h.name_opens
  have hname : Token.Shape .identifier h.name ([' '] ++ (h.key ++ afterKey)) :=
    .identifier h.name_ne_nil (List.all_eq_true.1 h.name_chars) rfl
  have hkey : Token.Shape .identifier h.key afterKey :=
    .identifier h.key_ne_nil (List.all_eq_true.1 h.key_chars) rfl
  have hspace : Token.Shape .whitespace [' '] (h.key ++ afterKey) :=
    .whitespace (by simp) (by simp [isSpace]) (hkey.head?_of_ne_whitespace (by decide) afterKey)
  have hassign : Token.Shape .assign ['='] ([h.delimiter.mark] ++ rest) := .assign _
  have hlist : Token.list (h.lead ++ rest) =
      listAt Place.first (['<'] ++ (h.name ++ ([' '] ++ (h.key ++ afterKey)))) := by
    simp [lead, afterKey, Token.list, listAt, Place.first]
  rw [Token.listAt_of_shape hmark, Token.listAt_of_shape hname, Token.listAt_of_shape hspace,
    Token.listAt_of_shape hkey, Token.listAt_of_shape hassign,
    Token.listAt_of_shape (.quote h.delimiter rest)] at hlist
  have hplace : (((((Place.first.past ['<']).past h.name).past [' ']).past h.key).past ['=']).past
      [h.delimiter.mark] = Place.first.past h.lead := by
    simp [lead, ← Place.past_append]
  rw [hplace] at hlist
  refine ⟨_, _, _, _, _, hlist, rfl, rfl, rfl, rfl, rfl, rfl, ?_⟩
  have hbreaks : Text.lineBreaks ['<'] = 0 ∧ Text.lineBreaks [' '] = 0 ∧
      Text.lineBreaks ['='] = 0 := by decide
  simp [hbreaks, lineBreaks_of_isNameChar h.name_chars, lineBreaks_of_isNameChar h.key_chars,
    Place.first]

/-- Where the head ends is searched for inside the value, and what is read is what is read of the
value and of the attributes behind it. -/
theorem exists_readOpening (rest : Text) :
    ∃ mark tokens opening, Token.list (h.lead ++ rest) = mark :: tokens ∧
      mark.kind = .tagStart ∧ opening.kind = h.delimiter.kind ∧ opening.line = 1 ∧
      ∀ e, extent ⟨some h.delimiter.kind, true, false⟩ (listAt (Place.first.past h.lead) rest) =
          .ok e →
        readOpening mark tokens =
          match readValue h.name opening e.body with
          | .error error => .error error
          | .ok (value, after) => (readAttributes h.name after).map fun attributes =>
            ({ name := h.name
               kind := if e.terminator.kind == .selfClosing then .selfClosing else .opening
               attributes := Keyed.ofList ((h.key, value) :: attributes)
               span := ⟨0, e.terminator.stop⟩
               line := 1 }, e.after) := by
  obtain ⟨name, space, key, assign, opening, hlist, hname, hspace, hkey, htext, hassign, hopening,
    hline⟩ := h.exists_tokens_lead rest
  refine ⟨_, _, opening, hlist, rfl, hopening, hline, fun e he => ?_⟩
  have hquote : opening.kind.isQuote := Delimiter.isQuote_iff.2 ⟨h.delimiter, hopening⟩
  have hblank : Blank [space] := by simpa [Blank] using hspace
  have hpasses : Passes {} [space, key, assign, opening] ⟨some opening.kind, true, false⟩ :=
    ((Passes.blank {} hblank).append (.key _ hkey)).append
      ((Passes.assign _ hassign).append (.opening hquote rfl rfl))
  have hextent := hpasses _ e (hopening ▸ he)
  have hassignWhite := isWhitespace_of_kind hassign (by decide)
  have hkeyWhite := isWhitespace_of_kind hkey (by decide)
  have hskip : skipSpace ([space, key, assign, opening] ++ e.body) =
      key :: assign :: opening :: e.body := by
    simp [skipSpace, hspace, hkeyWhite]
  have hread : readAttribute h.name key (assign :: opening :: e.body) =
      readValue h.name opening e.body := by
    simp [readAttribute, hkey, skipSpace_cons hassignWhite, hassign,
      skipSpace_cons (isWhitespace_of_isQuote hquote), hquote]
  simp only [List.cons_append, List.nil_append] at hextent hskip
  simp only [readOpening, List.head?_cons, List.tail_cons, hextent, hskip, hname, Option.map_some,
    Option.getD_some, readAttributes_cons, hread, htext]
  cases readValue h.name opening e.body with
  | error error => rfl
  | ok read => cases hafter : readAttributes h.name read.2 <;> simp [hafter, Except.map]

variable {h : SingleHead} {rest : Text} {e : Extent}

theorem firstHead_of_error {error : Error}
    (he : extent ⟨some h.delimiter.kind, true, false⟩ (listAt (Place.first.past h.lead) rest) =
      .ok e)
    (hvalue : ∀ opening : Token, opening.kind = h.delimiter.kind → opening.line = 1 →
      readValue h.name opening e.body = .error error) :
    firstHead (h.lead ++ rest) = .error error := by
  obtain ⟨mark, tokens, opening, hlist, hmark, hopening, hline, hread⟩ := h.exists_readOpening rest
  have hnext : next? (mark :: tokens) = .error error := by
    simp [next?, hmark, hread e he, hvalue opening hopening hline, Except.map]
  rw [firstHead, hlist, firstHeadOfTokens]
  split <;> simp_all

theorem firstHead_of_ok {value : Text}
    (he : extent ⟨some h.delimiter.kind, true, false⟩ (listAt (Place.first.past h.lead) rest) =
      .ok e)
    (hvalue : ∀ opening : Token, opening.kind = h.delimiter.kind →
      readValue h.name opening e.body = .ok (value, [])) :
    firstHead (h.lead ++ rest) = .ok (some
      { name := h.name
        kind := if e.terminator.kind == .selfClosing then .selfClosing else .opening
        attributes := [(h.key, value)]
        span := ⟨0, e.terminator.stop⟩
        line := 1 }) := by
  obtain ⟨mark, tokens, opening, hlist, hmark, hopening, -, hread⟩ := h.exists_readOpening rest
  have hnone : readAttributes h.name [] = .ok [] := by rw [readAttributes]
  have hsingle : Keyed.ofList [(h.key, value)] = [(h.key, value)] := rfl
  have hread := hread e he
  rw [hvalue opening hopening] at hread
  simp only [hnone, Except.map, hsingle] at hread
  have hnext {tag : Tag} {after : List Token} (hr : readOpening mark tokens = .ok (tag, after)) :
      next? (mark :: tokens) = .ok (some (tag, after)) := by
    simp [next?, hmark, hr, Except.map]
  rw [firstHead, hlist]
  refine firstHeadOfTokens_of_next? (hnext hread) ?_
  simp only [isClosing]
  split <;> rfl

/-- The tokens from the value on. -/
structure ValueTokens (h : SingleHead) where
  inner : List Token
  finish : Token
  space : Token
  terminator : Token
  list_eq : listAt (Place.first.past h.lead) (h.value ++ [h.delimiter.mark, ' ', '/', '>']) =
    inner ++ [finish, space, terminator]
  text_inner : Token.textOf inner = h.value
  finish_kind : finish.kind = h.delimiter.kind
  space_blank : Blank [space]
  terminator_kind : terminator.kind = .selfClosing
  terminator_stop : terminator.stop = Text.byteSize h.text

theorem nonempty_valueTokens (hlast : h.value.getLast? ≠ some '\\') : Nonempty h.ValueTokens := by
  have hsplit := Token.listAt_append (Token.cut_mark h.delimiter hlast [' ', '/', '>'])
    (Place.first.past h.lead)
  have hfinish := Token.listAt_of_shape (.quote h.delimiter [' ', '/', '>'])
    ((Place.first.past h.lead).past h.value)
  have hspace : Token.Shape .whitespace [' '] ['/', '>'] :=
    .whitespace (by simp) (by simp [isSpace]) rfl
  have hspace := Token.listAt_of_shape hspace
    (((Place.first.past h.lead).past h.value).past [h.delimiter.mark])
  have hterminator := Token.listAt_of_shape (.selfClosing [])
    ((((Place.first.past h.lead).past h.value).past [h.delimiter.mark]).past [' '])
  have hnil (p : Place) : listAt p [] = [] := by rw [listAt, Token.listFrom]
  simp only [List.append_nil, List.cons_append, List.nil_append, hnil]
    at hfinish hspace hterminator
  rw [hfinish, hspace, hterminator] at hsplit
  refine ⟨⟨_, _, _, _, hsplit, Token.textOf_listFrom .., rfl, ?_, rfl, ?_⟩⟩
  · simp [Blank, Token.isWhitespace]
  · simp [Token.stop, text, Place.first, Nat.add_assoc]

theorem ValueTokens.lexed (v : h.ValueTokens) :
    Token.Lexed (v.inner ++ [v.finish, v.space, v.terminator]) [] := by
  rw [← v.list_eq]
  exact Token.lexed_listFrom ..

/-! ## Values without quotes -/

theorem ValueTokens.isQuote_eq_false (v : h.ValueTokens)
    (hquotes : ∀ q : Delimiter, q.mark ∉ h.value) : ∀ t ∈ v.inner, t.kind.isQuote = false := by
  refine fun t ht => Bool.eq_false_iff.2 fun hquote => ?_
  obtain ⟨q, hq⟩ := Delimiter.isQuote_iff.1 hquote
  obtain ⟨after, hshape⟩ := v.lexed.exists_shape_of_mem (List.mem_append_left _ ht)
  have hmark : q.mark ∈ t.text := by simp [hshape.text_eq_of_quote hq]
  exact hquotes q (v.text_inner ▸ List.mem_flatMap.2 ⟨t, ht, hmark⟩)

theorem ValueTokens.extent_eq (v : h.ValueTokens) (hquotes : ∀ q : Delimiter, q.mark ∉ h.value) :
    extent ⟨some h.delimiter.kind, true, false⟩ (listAt (Place.first.past h.lead)
        (h.value ++ [h.delimiter.mark, ' ', '/', '>'])) =
      .ok ⟨v.inner ++ [v.finish, v.space], v.terminator, []⟩ := by
  rw [v.list_eq]
  exact extent_of_noQuotes h.isQuote_kind (v.isQuote_eq_false hquotes) v.finish_kind v.space_blank
    v.terminator_kind

theorem ValueTokens.endsInAssignment_iff (v : h.ValueTokens) :
    EndsInAssignment v.inner ↔ h.value.endsInAssignment := by
  rw [Tag.endsInAssignment_iff (Token.Lexed.append_iff.1 v.lexed).1, v.text_inner]

theorem firstHead_of_endsInAssignment (hquotes : ∀ q : Delimiter, q.mark ∉ h.value)
    (hbackslash : '\\' ∉ h.value) (hends : h.value.endsInAssignment) :
    firstHead h.text = .error (.unterminatedString h.name 1) := by
  obtain ⟨v⟩ := nonempty_valueTokens (mt List.mem_of_getLast? hbackslash)
  refine firstHead_of_error (v.extent_eq hquotes) fun opening hopening hline => ?_
  have hread := readValue_of_endsInAssignment (v.isQuote_eq_false hquotes)
    (hopening ▸ h.isQuote_kind) (v.finish_kind.trans hopening.symm) h.name
    (v.endsInAssignment_iff.2 hends) [v.space]
  rwa [hline] at hread

theorem firstHead_of_not_endsInAssignment (hquotes : ∀ q : Delimiter, q.mark ∉ h.value)
    (hbackslash : '\\' ∉ h.value) (hends : ¬ h.value.endsInAssignment) :
    firstHead h.text = .ok (some h.tag) := by
  obtain ⟨v⟩ := nonempty_valueTokens (mt List.mem_of_getLast? hbackslash)
  have hread (opening : Token) (hopening : opening.kind = h.delimiter.kind) :=
    readValue_of_not_endsInAssignment (v.isQuote_eq_false hquotes) (hopening ▸ h.isQuote_kind)
      (v.finish_kind.trans hopening.symm) h.name v.space_blank (mt v.endsInAssignment_iff.1 hends)
  have hok := firstHead_of_ok (v.extent_eq hquotes) hread
  simpa [v.terminator_kind, v.terminator_stop, v.text_inner, tag, text] using hok

/-- A value without quotes is read back as it stands, unless it ends in a name and a `=`, with white
space allowed after both of them. Then its closing quote is taken for the opening quote of another
value, and it lacks one itself. -/
theorem firstHead_of_noQuotes (h : SingleHead) (hquotes : ∀ q : Delimiter, q.mark ∉ h.value)
    (hbackslash : '\\' ∉ h.value) :
    firstHead h.text =
      if h.value.endsInAssignment then .error (.unterminatedString h.name 1)
      else .ok (some h.tag) := by
  split
  · next hends => exact firstHead_of_endsInAssignment hquotes hbackslash hends
  · next hends => exact firstHead_of_not_endsInAssignment hquotes hbackslash hends

/-- A path on two lines, which ends in a `=` behind a bracket. -/
def pathHead : SingleHead where
  name := "Link".toList
  key := "to".toList
  delimiter := .double
  value := "/a?b = <i>\n/> =\t".toList

theorem firstHead_of_noQuotes_pathHead :
    (∀ q : Delimiter, q.mark ∉ pathHead.value) ∧ '\\' ∉ pathHead.value ∧
      firstHead pathHead.text = .ok (some pathHead.tag) :=
  ⟨fun q => by cases q <;> decide, by decide,
    firstHead_of_noQuotes pathHead (fun q => by cases q <;> decide) (by decide)⟩

/-- A path whose last parameter is still to be filled in. -/
def queryHead : SingleHead where
  name := "Link".toList
  key := "to".toList
  delimiter := .double
  value := "?q=".toList

theorem firstHead_queryHead :
    queryHead.text = "<Link to=\"?q=\" />".toList ∧
      (∀ q : Delimiter, q.mark ∉ queryHead.value) ∧ '\\' ∉ queryHead.value ∧
      firstHead queryHead.text = .error (.unterminatedString "Link".toList 1) := by
  have hquotes (q : Delimiter) : q.mark ∉ queryHead.value := by cases q <;> decide
  have hbackslash : '\\' ∉ queryHead.value := by decide
  exact ⟨by decide, hquotes, hbackslash,
    firstHead_of_endsInAssignment hquotes hbackslash (by decide)⟩

/-! ## Values with an even number of quotes -/

/-- The tag as it is written with another value and end. -/
def spelling (h : SingleHead) (value trail : Text) (isSelfClosing : Bool)
    (trail_space : trail.all isSpace) : Spelling where
  lead := []
  name := h.name
  entries := [
    { lead := [' '], key := h.key, beforeAssign := [], afterAssign := []
      delimiter := h.delimiter, value
      lead_space := Eq.refl true, key_ne_nil := h.key_ne_nil, key_chars := h.key_chars
      beforeAssign_space := List.all_nil, afterAssign_space := List.all_nil }]
  trail
  isSelfClosing
  lead_space := List.all_nil
  name_opens := h.name_opens
  name_chars := h.name_chars
  trail_space

theorem text_spelling (h : SingleHead) (value trail : Text) (isSelfClosing : Bool)
    (trail_space : trail.all isSpace) :
    (h.spelling value trail isSelfClosing trail_space).text =
      h.lead ++ (value ++ h.delimiter.mark ::
        (trail ++ if isSelfClosing then ['/', '>'] else ['>'])) := by
  cases isSelfClosing <;> simp [spelling, lead, Spelling.text, Spelling.terminator, Entry.text]

theorem firstHead_spelling (h : SingleHead) {value trail : Text}
    (heven : h.delimiter.unescaped value % 2 = 0) (hsheltered : h.delimiter.Shelters value)
    (hlast : value.getLast? ≠ some '\\')
    (hunassigned : Text.Unassigned (value ++ [h.delimiter.mark])) (isSelfClosing : Bool)
    (trail_space : trail.all isSpace) (after : Text) :
    firstHead (h.lead ++ (value ++ h.delimiter.mark ::
        (trail ++ if isSelfClosing then ['/', '>'] else ['>'])) ++ after) = .ok (some
      { name := h.name
        kind := if isSelfClosing then .selfClosing else .opening
        attributes := [(h.key, value)]
        span := ⟨0, Text.byteSize (h.lead ++ (value ++ h.delimiter.mark ::
          (trail ++ if isSelfClosing then ['/', '>'] else ['>'])))⟩
        line := 1 }) := by
  obtain ⟨rest, hnext⟩ := next?_spelled (h.spelling value trail isSelfClosing trail_space)
    (by simp [spelling]) (by simpa [spelling] using ⟨heven, hsheltered, hlast, hunassigned⟩)
    after Place.first
  have hread := firstHeadOfTokens_of_next? hnext (by cases isSelfClosing <;> rfl)
  rw [text_spelling] at hread
  simp only [Place.first, Nat.zero_add] at hread
  exact hread

variable {h : SingleHead}

theorem firstHead_of_shelters (heven : h.delimiter.unescaped h.value % 2 = 0)
    (hlast : h.value.getLast? ≠ some '\\')
    (hunassigned : Text.Unassigned (h.value ++ [h.delimiter.mark]))
    (hshelters : h.delimiter.Shelters h.value) : firstHead h.text = .ok (some h.tag) := by
  have hspace : [' '].all isSpace := by decide
  have hread := h.firstHead_spelling heven hshelters hlast hunassigned true hspace []
  rw [List.append_nil] at hread
  exact hread

/-- The tag that is read of the text up to a bracket in the value. -/
def cut (h : SingleHead) (c : h.delimiter.Cutoff h.value) : Tag where
  name := h.name
  kind := if c.isSelfClosing then .selfClosing else .opening
  attributes := [(h.key, c.part)]
  span := ⟨0, Text.byteSize (h.lead ++ (c.part ++ h.delimiter.mark ::
    (c.space ++ if c.isSelfClosing then ['/', '>'] else ['>'])))⟩
  line := 1

theorem firstHead_of_cutoff (hunassigned : Text.Unassigned (h.value ++ [h.delimiter.mark]))
    (c : h.delimiter.Cutoff h.value) : firstHead h.text = .ok (some (h.cut c)) := by
  have hvalue : h.value ++ [h.delimiter.mark] = (c.part ++ [h.delimiter.mark]) ++
      (c.space ++ ((if c.isSelfClosing then ['/', '>'] else ['>']) ++
        (c.rest ++ [h.delimiter.mark]))) := by
    conv_lhs => rw [c.value_eq]
    simp
  have htext : h.text = h.lead ++ (c.part ++ h.delimiter.mark ::
      (c.space ++ if c.isSelfClosing then ['/', '>'] else ['>'])) ++
        (c.rest ++ [h.delimiter.mark, ' ', '/', '>']) := by
    conv_lhs => rw [text, c.value_eq]
    simp
  rw [htext]
  exact h.firstHead_spelling c.even c.sheltered c.unescaped (hvalue ▸ hunassigned).append_left
    c.isSelfClosing c.space_space _

theorem ValueTokens.unassigned (v : h.ValueTokens)
    (hunassigned : Text.Unassigned (h.value ++ [h.delimiter.mark])) :
    Unassigned (v.inner ++ [v.finish]) := by
  have hlexed : Token.Lexed ((v.inner ++ [v.finish]) ++ [v.space, v.terminator]) [] := by
    simpa using v.lexed
  refine unassigned_of_lexed (Token.Lexed.append_iff.1 hlexed).1 ?_
  simpa [v.text_inner, v.lexed.shape.text_eq_of_quote v.finish_kind] using hunassigned

theorem firstHead_of_not_shelters (hlast : h.value.getLast? ≠ some '\\')
    (hunassigned : Text.Unassigned (h.value ++ [h.delimiter.mark]))
    (hshelters : ¬ h.delimiter.Shelters h.value)
    (hcutoff : ¬ Nonempty (h.delimiter.Cutoff h.value)) :
    ∃ found line, firstHead h.text =
      .error (.unexpectedToken h.name "another attribute".toList found line) := by
  obtain ⟨v⟩ := nonempty_valueTokens hlast
  obtain ⟨hlexed, -⟩ := Token.Lexed.append_iff.1 v.lexed
  -- the head ends at the first bracket behind an odd number of quotes
  have houtside : ¬ Enclosed h.delimiter.kind v.inner := by
    rwa [enclosed_iff_shelters hlexed, v.text_inner]
  obtain ⟨before, t, rest, hinner, ht, hodd, henclosed⟩ := exists_of_not_enclosed houtside
  have hunassignedTokens := v.unassigned hunassigned
  rw [hinner, List.append_assoc] at hunassignedTokens
  obtain ⟨afterAssign, -, hpasses⟩ := Passes.of_enclosed h.isQuote_kind henclosed hunassignedTokens
  rw [hodd] at hpasses
  have hextent := hpasses _ _ (extent_of_terminates rfl ht
    (rest ++ [v.finish, v.space, v.terminator]))
  have hlist : before ++ t :: (rest ++ [v.finish, v.space, v.terminator]) =
      listAt (Place.first.past h.lead) (h.value ++ [h.delimiter.mark, ' ', '/', '>']) := by
    rw [v.list_eq, hinner]
    simp
  rw [hlist, List.append_nil] at hextent
  obtain ⟨value, quote, trailing, rfl, hquote, heven, hread⟩ :=
    exists_readValue_of_odd hunassignedTokens.append_left hodd h.name
  cases hstray : trailing.find? (!·.isWhitespace) with
  | some stray =>
    refine ⟨stray.text, stray.line, firstHead_of_error hextent fun opening hopening _ => ?_⟩
    rw [hread opening hopening, hstray]
    rfl
  | none =>
    have htrailing : Blank trailing := by simpa [Blank] using hstray
    rw [hinner] at hlexed
    have hcutoff' := nonempty_cutoff hlexed henclosed.append_left heven hquote htrailing ht
    rw [← hinner, v.text_inner] at hcutoff'
    exact absurd hcutoff' hcutoff

/-- A value with an even number of quotes that open no other attribute is read back if every bracket
in it stands behind an even number of them. Otherwise the tag is refused, unless a bracket ends it
where only white space stands between the bracket and the last quote before it. -/
theorem firstHead_of_evenQuotes (h : SingleHead)
    (heven : h.delimiter.unescaped h.value % 2 = 0) (hlast : h.value.getLast? ≠ some '\\')
    (hunassigned : Text.Unassigned (h.value ++ [h.delimiter.mark])) :
    (h.delimiter.Shelters h.value → firstHead h.text = .ok (some h.tag)) ∧
    (∀ c : h.delimiter.Cutoff h.value, firstHead h.text = .ok (some (h.cut c))) ∧
    (¬ h.delimiter.Shelters h.value → ¬ Nonempty (h.delimiter.Cutoff h.value) →
      ∃ found line, firstHead h.text =
        .error (.unexpectedToken h.name "another attribute".toList found line)) :=
  ⟨firstHead_of_shelters heven hlast hunassigned, firstHead_of_cutoff hunassigned,
    firstHead_of_not_shelters hlast hunassigned⟩

/-- A value that could as well be the end of the tag and text behind it. -/
def cutHead : SingleHead where
  name := "Card".toList
  key := "title".toList
  delimiter := .double
  value := "a\" > b\"c".toList

def cutHeadCutoff : cutHead.delimiter.Cutoff cutHead.value where
  part := ['a']
  space := [' ']
  isSelfClosing := false
  rest := " b\"c".toList
  value_eq := by decide
  even := by decide
  sheltered := by decide
  unescaped := by decide
  space_space := Eq.refl true

theorem firstHead_cutHead :
    cutHead.text = "<Card title=\"a\" > b\"c\" />".toList ∧
      cutHead.delimiter.unescaped cutHead.value % 2 = 0 ∧ cutHead.value.getLast? ≠ some '\\' ∧
      Text.Unassigned (cutHead.value ++ [cutHead.delimiter.mark]) ∧
      firstHead cutHead.text =
        .ok (some ⟨"Card".toList, .opening, [("title".toList, ['a'])], ⟨0, 17⟩, 1⟩) := by
  have hunassigned : Text.Unassigned (cutHead.value ++ [cutHead.delimiter.mark]) := by decide
  exact ⟨by decide, by decide, by decide, hunassigned,
    firstHead_of_cutoff hunassigned cutHeadCutoff⟩

/-- A value whose brackets are all in the value. -/
def shelteredHead : SingleHead :=
  { cutHead with value := "a > \"b\" /> c".toList }

/-- A value in which a word stands before the bracket. -/
def refusedHead : SingleHead :=
  { cutHead with value := "a\" x > \"b".toList }

theorem firstHead_of_evenQuotes_heads :
    (∀ h ∈ [shelteredHead, cutHead, refusedHead], h.delimiter.unescaped h.value % 2 = 0 ∧
      h.value.getLast? ≠ some '\\' ∧ Text.Unassigned (h.value ++ [h.delimiter.mark])) ∧
    firstHead shelteredHead.text = .ok (some shelteredHead.tag) ∧
    firstHead cutHead.text = .ok (some (cutHead.cut cutHeadCutoff)) ∧
    ∃ found line, firstHead refusedHead.text =
      .error (.unexpectedToken "Card".toList "another attribute".toList found line) :=
  ⟨by decide,
    (firstHead_of_evenQuotes shelteredHead (by decide) (by decide) (by decide)).1 (by decide),
    (firstHead_of_evenQuotes cutHead (by decide) (by decide) (by decide)).2.1 cutHeadCutoff,
    (firstHead_of_evenQuotes refusedHead (by decide) (by decide) (by decide)).2.2 (by decide)
      (by decide)⟩

end SingleHead

end ComponentTags.Tag
