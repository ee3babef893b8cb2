import ComponentTags.Proofs.Tag.Plain
import ComponentTags.Tag.Placement

/-!
# Marked text

A text as its tags, each with what it is written as, and the plain text after each of them. The tags
of such a text are those of its marks, in the places where they stand. Every source is of this form
if each `<` before white space opens a tag.
-/

namespace ComponentTags

/-- A tag and the text that it is written as. -/
structure Mark where
  tag : Tag
  text : Text
deriving DecidableEq, Repr

namespace Mark

/-- The tag of a mark that stands in the given place. -/
def placed (p : Place) (m : Mark) : Tag :=
  { m.tag with span := ⟨p.offset, p.offset + Text.byteSize m.text⟩, line := p.line }

@[simp] theorem kind_placed (p : Place) (m : Mark) : (m.placed p).kind = m.tag.kind := rfl

@[simp] theorem sameName_placed (p q : Place) (m m' : Mark) :
    (m.placed p).sameName (m'.placed q) = m.tag.sameName m'.tag := rfl

/-- The text of a mark is read as its tag in every place. -/
structure Sound (m : Mark) : Prop where
  begins : ∃ s, m.text = '<' :: s
  kept : m.tag.KeptFrom m.text
  next? : ∀ (p : Place) (rest : Text),
    Tag.next? (Token.listAt p (m.text ++ rest)) =
      .ok (some (m.placed p, Token.listAt (p.past m.text) rest))

/-- Text from the first mark on: marks and what stands after each of them. -/
abbrev Sequence := List (Mark × Text)

def textOf (pieces : Sequence) : Text :=
  pieces.flatMap fun piece => piece.1.text ++ piece.2

def placedFrom (p : Place) : Sequence → List Tag
  | [] => []
  | (m, after) :: rest => m.placed p :: placedFrom ((p.past m.text).past after) rest

@[simp] theorem textOf_nil : textOf [] = [] := rfl

@[simp] theorem textOf_cons (m : Mark) (after : Text) (rest : Sequence) :
    textOf ((m, after) :: rest) = m.text ++ (after ++ textOf rest) := by
  simp [textOf]

@[simp] theorem textOf_append (pieces rest : Sequence) :
    textOf (pieces ++ rest) = textOf pieces ++ textOf rest :=
  List.flatMap_append

theorem placedFrom_append (p : Place) (pieces rest : Sequence) :
    placedFrom p (pieces ++ rest) =
      placedFrom p pieces ++ placedFrom (p.past (textOf pieces)) rest := by
  induction pieces generalizing p with
  | nil => rfl
  | cons piece pieces ih =>
    obtain ⟨m, after⟩ := piece
    simp [placedFrom, ih]

@[simp] theorem length_placedFrom (p : Place) (pieces : Sequence) :
    (placedFrom p pieces).length = pieces.length := by
  induction pieces generalizing p with
  | nil => rfl
  | cons piece pieces ih => simp [placedFrom, ih]

theorem exists_of_placedFrom_eq_append {p : Place} {pieces : Sequence} {before tags : List Tag}
    (h : placedFrom p pieces = before ++ tags) :
    ∃ done rest, pieces = done ++ rest ∧ placedFrom (p.past (textOf done)) rest = tags := by
  induction before generalizing p pieces with
  | nil => exact ⟨[], pieces, rfl, h⟩
  | cons tag before ih =>
    cases pieces with
    | nil => cases h
    | cons piece pieces =>
      obtain ⟨mark, gap⟩ := piece
      obtain ⟨done, rest, rfl, hrest⟩ := ih (List.cons.inj h).2
      refine ⟨(mark, gap) :: done, rest, rfl, ?_⟩
      simpa using hrest

theorem exists_of_placedFrom_eq_cons {p : Place} {pieces : Sequence} {tag : Tag} {tags : List Tag}
    (h : placedFrom p pieces = tag :: tags) :
    ∃ mark gap rest, pieces = (mark, gap) :: rest ∧ tag = mark.placed p ∧
      placedFrom ((p.past mark.text).past gap) rest = tags := by
  cases pieces with
  | nil => cases h
  | cons piece rest =>
    obtain ⟨htag, htags⟩ := List.cons.inj h
    exact ⟨piece.1, piece.2, rest, rfl, htag.symm, htags⟩

/-- Marks that are read as their tags, with plain text between them. -/
def Readable (pieces : Sequence) : Prop :=
  ∀ piece ∈ pieces, piece.1.Sound ∧ Token.Plain piece.2

theorem text_ne_nil {pieces : Sequence} (h : Readable pieces) :
    ∀ piece ∈ pieces, piece.1.text ≠ [] := by
  intro piece hp hnil
  obtain ⟨s, hs⟩ := (h piece hp).1.begins
  rw [hnil] at hs
  cases hs

theorem head?_textOf {pieces : Sequence} (h : Readable pieces) :
    (textOf pieces).head?.all Token.isInert := by
  cases pieces with
  | nil => rfl
  | cons piece pieces =>
    obtain ⟨m, after⟩ := piece
    obtain ⟨s, hs⟩ := (h (m, after) (by simp)).1.begins
    rw [textOf_cons, hs]
    rfl

/-- The tags of a marked text are its marks where they stand. -/
theorem listOfTokens_marked {lead : Text} {pieces : Sequence} (hlead : Token.Plain lead)
    (h : Readable pieces) (p : Place) :
    Tag.listOfTokens (Token.listAt p (lead ++ textOf pieces)) =
      .ok (placedFrom (p.past lead) pieces) := by
  induction pieces generalizing lead p with
  | nil =>
    have hnext := Tag.next?_plain hlead (t := []) rfl p
    refine Tag.listOfTokens_none (hnext.trans ?_)
    simp only [Token.listAt, Token.listFrom, Tag.next?]
  | cons piece pieces ih =>
    obtain ⟨m, after⟩ := piece
    obtain ⟨⟨hm, hafter⟩, hrest⟩ := List.forall_mem_cons.1 h
    have hnext := Tag.next?_plain hlead (head?_textOf h) p
    rw [textOf_cons] at hnext ⊢
    rw [hm.next?] at hnext
    refine Tag.listOfTokens_some hnext ?_
    rw [ih hafter hrest]

theorem le_start_of_mem_placedFrom {p : Place} {pieces : Sequence} {tag : Tag}
    (h : tag ∈ placedFrom p pieces) : p.offset ≤ tag.span.start := by
  induction pieces generalizing p with
  | nil => simp [placedFrom] at h
  | cons piece pieces ih =>
    rcases List.mem_cons.1 h with rfl | h
    · exact Nat.le_refl _
    · have := ih h
      simp only [Place.offset_past] at this
      omega

end Mark

/-! ## Reading a source as marked text -/

namespace Token

theorem moved_injective (p : Place) : Function.Injective (moved p) := by
  intro s t h
  cases s
  cases t
  simp only [moved, mk.injEq] at h ⊢
  obtain ⟨hk, ht, hs, hl⟩ := h
  exact ⟨hk, ht, by omega, by omega⟩

/-- A token that ends a tag ends in `>`. -/
theorem exists_text_eq_of_terminator {start line : Nat} {s : Text} {t : Token}
    (h : t ∈ listFrom start line s) (hk : t.kind = .rightAngle ∨ t.kind = .selfClosing) :
    ∃ init, t.text = init ++ ['>'] := by
  obtain ⟨start, line, c, rest, rfl⟩ := exists_first_of_mem h
  simp only [first] at hk ⊢
  generalize hlex : Kind.lex c rest = r at hk ⊢
  unfold Kind.lex at hlex
  split at hlex
  · subst hlex
    simp at hk
  · split at hlex
    · subst hlex
      simp at hk
    · split at hlex
      all_goals try split at hlex
      all_goals subst hlex
      all_goals simp at hk
      · exact ⟨['/'], rfl⟩
      · exact ⟨[], rfl⟩

theorem exists_text_eq_of_opens {start line : Nat} {s : Text} {t : Token}
    (h : t ∈ listFrom start line s) (hk : t.kind = .tagStart ∨ t.kind = .closingTagStart ∨
      t.kind = .leftAngle) : ∃ rest, t.text = '<' :: rest := by
  obtain ⟨start, line, c, rest, rfl⟩ := exists_first_of_mem h
  have := eq_of_lex_opens rfl hk
  exact ⟨_, by rw [first, this]⟩

end Token

namespace Tag

theorem Written.mark_kind {tag : Tag} {mark : Token} {written : List Token}
    (h : Written tag (mark :: written)) :
    mark.kind = .tagStart ∨ mark.kind = .closingTagStart ∨ mark.kind = .leftAngle := by
  cases h with
  | opening hm => cases hm <;> simp [*]
  | closing hm => simp [hm]

theorem Written.exists_terminator {tag : Tag} {tokens : List Token} (h : Written tag tokens) :
    ∃ init terminator, tokens = init ++ [terminator] ∧
      (terminator.kind = .rightAngle ∨ terminator.kind = .selfClosing) := by
  cases h with
  | @opening mark name terminator before between tokens _ _ _ _ _ _ hk =>
    exact ⟨mark :: (before ++ name :: (between ++ tokens)), terminator, by simp,
      by rcases hk with hk | hk <;> simp [hk.2]⟩
  | @closing mark name terminator between _ _ _ hk =>
    exact ⟨mark :: name :: between, terminator, by simp, .inl hk⟩

end Tag

namespace Tag

theorem ReadAs.written_of_listFrom {start line : Nat} {s : Text} {mark : Token}
    {written after : List Token} {tag : Tag} (hread : ReadAs mark written tag)
    (hs : Token.listFrom start line s = mark :: (written ++ after)) :
    Written tag (mark :: written) := by
  refine hread.written fun hk => ?_
  obtain ⟨name, rest, hn, hname⟩ := Token.exists_isTagName_of_opens hs hk
  cases written with
  | nil => rfl
  | cons t written =>
    obtain ⟨rfl, -⟩ := List.cons.inj hn
    simpa using hname

end Tag

namespace Mark

/-- A text that is read as a tag in one place is read so in every place. -/
theorem next?_of_readAs {q : Place} {head : Text} {mark : Token} {written : List Token} {tag : Tag}
    (hcut : ∀ rest, Token.Cut head rest) (ht : Token.listAt q head = mark :: written)
    (hread : Tag.ReadAs mark written tag)
    (htag : tag.span = ⟨q.offset, q.offset + Text.byteSize head⟩ ∧ tag.line = q.line)
    (p : Place) (rest : Text) :
    Tag.next? (Token.listAt p (head ++ rest)) =
      .ok (some (placed p ⟨tag, head⟩, Token.listAt (p.past head) rest)) := by
  rw [Token.listAt_eq_map] at ht
  -- at the origin the head has these tokens, and these follow it
  let tokens := Token.listFrom 0 0 head
  let after := Token.listFrom (Text.byteSize head) (Text.lineBreaks head) rest
  have hsplit : Token.listAt p (head ++ rest) = (tokens ++ after).map (Token.moved p) := by
    rw [Token.listAt_append (hcut rest), Token.listAt_eq_map, List.map_append]
    exact congrArg (_ ++ ·) (Token.listFrom_moved p _ _ rest)
  have hq : Tag.movedNext q (Tag.next? (tokens ++ after)) =
      .ok (some (tag, after.map (Token.moved q))) := by
    rw [← Tag.next?_map, List.map_append]
    have := hread.next? (after.map (Token.moved q))
    rwa [← List.cons_append, ← ht] at this
  cases hn : Tag.next? (tokens ++ after) with
  | error e => simp [hn, Tag.movedNext] at hq
  | ok r =>
    rcases r with _ | ⟨tag', after'⟩
    · simp [hn, Tag.movedNext] at hq
    · simp only [hn, Tag.movedNext, Option.map_some, Except.ok.injEq, Option.some.injEq,
        Prod.mk.injEq] at hq
      obtain ⟨rfl, hafter⟩ := hq
      have hinj {s t : Token} (h : s.moved q = t.moved q) : s = t := Token.moved_injective q h
      obtain rfl : after' = after := (List.map_inj_right fun _ _ => hinj).1 hafter
      have hplaced : tag'.moved p = placed p ⟨tag'.moved q, head⟩ := by
        simp only [Tag.moved, Span.mk.injEq] at htag
        simp only [Tag.moved, placed, Tag.mk.injEq, Span.mk.injEq, true_and]
        omega
      have hmoved : after.map (Token.moved p) = Token.listAt (p.past head) rest :=
        (Token.listFrom_moved p _ _ rest).symm
      rw [hsplit, Tag.next?_map, hn, ← hplaced, ← hmoved]
      rfl

/-- What stands in a source where a tag is read is a mark. -/
theorem sound_of_readAs {q : Place} {s : Text} {mark : Token} {written after : List Token}
    {tag : Tag} (hs : Token.listAt q s = mark :: (written ++ after))
    (hread : Tag.ReadAs mark written tag) :
    (⟨tag, Token.textOf (mark :: written)⟩ : Mark).Sound ∧
      placed q ⟨tag, Token.textOf (mark :: written)⟩ = tag ∧
      ∃ rest, s = Token.textOf (mark :: written) ++ rest ∧
        after = Token.listAt (q.past (Token.textOf (mark :: written))) rest := by
  have hwritten : Tag.Written tag (mark :: written) := hread.written_of_listFrom hs
  have hgap : Token.listFrom q.offset q.line s = [] ++ mark :: (written ++ after) := hs
  obtain ⟨hspan, hline, hkept⟩ := Tag.placed_of_written hgap hwritten
  have hsplit : Token.listFrom q.offset q.line s = (mark :: written) ++ after := hs
  have hmem {t : Token} (ht : t ∈ mark :: written) : t ∈ Token.listFrom q.offset q.line s := by
    rw [hsplit]
    exact List.mem_append_left _ ht
  obtain ⟨rest, htext, hafter⟩ := Token.listFrom_eq_append hsplit
  -- the last character of the tag shields its tokens from what follows
  have hcut : ∀ rest, Token.Cut (Token.textOf (mark :: written)) rest := by
    obtain ⟨init, terminator, hinit, hk⟩ := hwritten.exists_terminator
    obtain ⟨body, hbody⟩ := Token.exists_text_eq_of_terminator (hmem (by simp [hinit])) hk
    rw [hinit, Token.textOf_append, Token.textOf_cons, hbody, Token.textOf_nil, List.append_nil,
      ← List.append_assoc]
    exact Token.cut_of_rightAngle _
  have htokens : Token.listAt q (Token.textOf (mark :: written)) = mark :: written := by
    have hsplit := Token.listAt_append (hcut rest) q
    rw [← htext, hs, ← List.cons_append] at hsplit
    exact List.append_cancel_right ((hsplit.trans (congrArg _ hafter.symm)).symm)
  obtain ⟨body, hbody⟩ := Token.exists_text_eq_of_opens (hmem (by simp)) hwritten.mark_kind
  refine ⟨⟨?_, hkept, ?_⟩, ?_, rest, htext, hafter⟩
  · exact ⟨body ++ Token.textOf written, by simp [hbody]⟩
  · exact next?_of_readAs hcut htokens hread ⟨by simpa using hspan, by simpa using hline⟩
  · cases tag
    simp_all [placed]

end Mark

namespace Tag

/-- Every `<` before white space opens one of the tags. -/
def SpacedOpen (p : Place) (source : Text) (tags : List Tag) : Prop :=
  ∀ before c rest, source = before ++ '<' :: c :: rest → Token.isSpace c →
    ∃ tag ∈ tags, tag.span.start = p.offset + Text.byteSize before

/-- The offsets of the `<` before white space. -/
def spacedAngles (start : Nat) : Text → List Nat
  | [] => []
  | c :: rest =>
    (if c = '<' ∧ rest.head?.any Token.isSpace then [start] else []) ++
      spacedAngles (start + c.utf8Size) rest

theorem mem_spacedAngles {start n : Nat} {s : Text} : n ∈ spacedAngles start s ↔
    ∃ before c rest, s = before ++ '<' :: c :: rest ∧ Token.isSpace c ∧
      n = start + Text.byteSize before := by
  induction s generalizing start with
  | nil => simp [spacedAngles]
  | cons d s ih =>
    rw [spacedAngles, List.mem_append, ih]
    constructor
    · rintro (h | ⟨before, c, rest, rfl, hc, rfl⟩)
      · split at h
        · next hd =>
          obtain ⟨rfl, hs⟩ := hd
          obtain ⟨c, hhead, hc⟩ := (Option.any_eq_true _ _).1 hs
          obtain ⟨rest, rfl⟩ := List.head?_eq_some_iff.1 hhead
          exact ⟨[], c, rest, rfl, hc, List.mem_singleton.1 h⟩
        · cases h
      · exact ⟨d :: before, c, rest, rfl, hc, by simp [Nat.add_assoc]⟩
    · rintro ⟨before, c, rest, hs, hc, rfl⟩
      cases before with
      | nil =>
        obtain ⟨rfl, rfl⟩ := List.cons.inj hs
        simp [hc]
      | cons e before =>
        obtain ⟨rfl, rfl⟩ := List.cons.inj hs
        exact .inr ⟨before, c, rest, rfl, hc, by simp [Nat.add_assoc]⟩

theorem spacedOpen_iff {p : Place} {source : Text} {tags : List Tag} :
    SpacedOpen p source tags ↔
      ∀ n ∈ spacedAngles p.offset source, ∃ tag ∈ tags, tag.span.start = n := by
  constructor
  · intro h n hn
    obtain ⟨before, c, rest, hs, hc, rfl⟩ := mem_spacedAngles.1 hn
    exact h before c rest hs hc
  · intro h before c rest hs hc
    exact h _ (mem_spacedAngles.2 ⟨before, c, rest, hs, hc, rfl⟩)

instance (p : Place) (source : Text) (tags : List Tag) : Decidable (SpacedOpen p source tags) :=
  decidable_of_iff _ spacedOpen_iff.symm

theorem not_opens_of_next?_none {tokens : List Token} (h : next? tokens = .ok none) :
    ∀ t ∈ tokens, t.kind ≠ .tagStart ∧ t.kind ≠ .closingTagStart := by
  induction tokens with
  | nil => simp
  | cons t rest ih =>
    unfold next? at h
    split at h
    · cases hr : readOpening t rest <;> simp [hr, Except.map] at h
    · cases hr : readClosing t rest <;> simp [hr, Except.map] at h
    · next hk =>
      split at h
      · cases h
      · exact List.forall_mem_cons.2 ⟨by simp [hk], ih h⟩
    · next h1 h2 _ => exact List.forall_mem_cons.2 ⟨⟨h1, h2⟩, ih h⟩

theorem SpacedOpen.after {p : Place} {gap head rest : Text} {tag : Tag} {tags : List Tag}
    (h : SpacedOpen p (gap ++ (head ++ rest)) (tag :: tags)) (hhead : head ≠ [])
    (hstart : tag.span.start = p.offset + Text.byteSize gap) :
    SpacedOpen ((p.past gap).past head) rest tags := by
  intro before c after hs hc
  obtain ⟨tag', hm, hstart'⟩ := h (gap ++ (head ++ before)) c after (by simp [hs]) hc
  simp only [Text.byteSize_append] at hstart'
  have hpos : Text.byteSize head ≠ 0 := fun h => hhead (Text.byteSize_eq_zero.1 h)
  rcases List.mem_cons.1 hm with rfl | hm
  · omega
  · exact ⟨tag', hm, by simp only [Place.offset_past]; omega⟩

/-- A source is marked text if each of its `<` before white space opens a tag. -/
theorem exists_marked {p : Place} {s : Text} {tags : List Tag}
    (h : listOfTokens (Token.listAt p s) = .ok tags) (hspaced : SpacedOpen p s tags) :
    ∃ lead pieces, s = lead ++ Mark.textOf pieces ∧ Token.Plain lead ∧ Mark.Readable pieces ∧
      Mark.placedFrom (p.past lead) pieces = tags ∧ pieces.map (·.1.tag) = tags := by
  generalize ht : Token.listAt p s = tokens at h
  fun_induction listOfTokens tokens generalizing p s tags with
  | case1 => cases h
  | case2 tokens hn =>
    cases h
    refine ⟨s, [], by simp, ?_, by simp [Mark.Readable], rfl, rfl⟩
    have hsplit : Token.listFrom p.offset p.line s = tokens ++ [] := by
      rw [List.append_nil]
      exact ht
    have hplain := Token.plain_textOf hsplit (not_opens_of_next?_none hn) ?_
    · rw [← ht] at hplain
      simpa [Token.listAt, Token.textOf_listFrom] using hplain
    · intro before c rest hs hc
      obtain ⟨tag, hm, -⟩ := hspaced before c rest hs hc
      simp at hm
  | case3 tokens tag after hn _ ih =>
    cases hr : listOfTokens after with
    | error e => simp [hr, Except.map] at h
    | ok tags' =>
      simp only [hr, Except.map, Except.ok.injEq] at h
      subst h
      obtain ⟨gap, mark, written, hsplit, hgap, hread⟩ := exists_readAs_of_next? hn
      obtain ⟨s', rfl, hs'⟩ := Token.listFrom_eq_append (ht.trans hsplit)
      obtain ⟨hsound, hplaced, rest, rfl, hafter⟩ :=
        Mark.sound_of_readAs (q := p.past (Token.textOf gap)) hs'.symm hread
      obtain ⟨body, hbody⟩ := hsound.begins
      have hstart : tag.span.start = p.offset + Text.byteSize (Token.textOf gap) := by
        rw [← hplaced]
        rfl
      have hhead : Token.textOf (mark :: written) ≠ [] := by
        rintro h
        simp [h] at hbody
      obtain ⟨lead, pieces, rfl, hlead, hreadable, hpieces, htags⟩ :=
        ih (hspaced.after hhead hstart) hafter.symm hr
      refine ⟨Token.textOf gap, (⟨tag, Token.textOf (mark :: written)⟩, lead) :: pieces,
        by simp, ?_, ?_, ?_, by simp [htags]⟩
      · refine Token.plain_textOf (ht.trans hsplit) hgap ?_
        intro before c after' hs hc
        obtain ⟨tag', hm, hstart'⟩ := hspaced before c after' hs hc
        rcases List.mem_cons.1 hm with rfl | hm
        · omega
        · rw [← hpieces] at hm
          have := Mark.le_start_of_mem_placedFrom hm
          simp only [Place.offset_past] at this
          omega
      · exact List.forall_mem_cons.2 ⟨⟨hsound, hlead⟩, hreadable⟩
      · simp only [Mark.placedFrom, hplaced, hpieces]

end Tag

end ComponentTags
