import ComponentTags.Tag.List
import ComponentTags.Token.Tiling

/-!
# Placement of tags

The tags of a source lie in it one after another, with gaps between them. The text of a tag holds
one `<` more than the values of its attributes at least, and its names hold none.
-/

namespace ComponentTags

/-- The number of `<` in the values. -/
def Attributes.angles (attributes : Attributes) : Nat :=
  (attributes.flatMap Prod.snd).count '<'

namespace Tag

/-- What a tag keeps of the text that it is written as. -/
structure KeptFrom (tag : Tag) (head : Text) : Prop where
  name_chars : ∀ c ∈ tag.name, Token.isNameChar c
  key_chars : ∀ a ∈ tag.attributes, ∀ c ∈ a.1, Token.isNameChar c
  angles_lt : tag.attributes.angles < head.count '<'
  breaks_le : Text.lineBreaks (tag.attributes.flatMap Prod.snd) ≤ Text.lineBreaks head
  values_infix : ∀ a ∈ tag.attributes, a.2 <:+: head.tail
  attributes_closing : tag.kind = .closing → tag.attributes = []

/-- The tags of a text whose first character has the given offset and line. -/
inductive Placed : Nat → Nat → Text → List Tag → Prop where
  | nil (start line : Nat) (gap : Text) : Placed start line gap []
  | cons {start line : Nat} {gap head rest : Text} {tag : Tag} {tags : List Tag} :
      tag.span = ⟨start + Text.byteSize gap, start + Text.byteSize gap + Text.byteSize head⟩ →
      tag.line = line + Text.lineBreaks gap → tag.KeptFrom head →
      Placed (start + Text.byteSize gap + Text.byteSize head)
        (line + Text.lineBreaks gap + Text.lineBreaks head) rest tags →
      Placed start line (gap ++ head ++ rest) (tag :: tags)

theorem count_le_of_writtenAttributes {entries : List (Text × Text)} {tokens : List Token}
    (h : WrittenAttributes entries tokens) (c : Char) :
    (entries.flatMap Prod.snd).count c ≤ (Token.textOf tokens).count c := by
  induction h with
  | nil => exact Nat.le_refl _
  | cons _ hv _ ih =>
    cases hv
    simp only [List.flatMap_cons, Token.textOf_cons, Token.textOf_append, List.count_append] at ih ⊢
    simp only [Token.textOf] at ih ⊢
    omega

theorem exists_identifier_of_writtenAttributes {entries : List (Text × Text)}
    {tokens : List Token} (h : WrittenAttributes entries tokens) {a : Text × Text}
    (ha : a ∈ entries) : ∃ key ∈ tokens, key.kind = .identifier ∧ a.1 = key.text := by
  induction h with
  | nil => simp at ha
  | @cons key value tokens rest entries hk _ _ ih =>
    rcases List.mem_cons.1 ha with rfl | ha
    · exact ⟨key, by simp, hk, rfl⟩
    · obtain ⟨key', hm, h⟩ := ih ha
      exact ⟨key', by simp [hm], h⟩

/-- A value stands in the text of its attributes as one piece. -/
theorem value_infix_of_writtenAttributes {entries : List (Text × Text)} {tokens : List Token}
    (h : WrittenAttributes entries tokens) {a : Text × Text} (ha : a ∈ entries) :
    a.2 <:+: Token.textOf tokens := by
  induction h with
  | nil => cases ha
  | @cons key value tokens rest entries _ hv _ ih =>
    rcases List.mem_cons.1 ha with rfl | ha
    · obtain @⟨before, between, after, inner, assign, opening, finish⟩ := hv
      refine ⟨Token.textOf (key :: before ++ assign :: between ++ [opening]),
        Token.textOf (finish :: after ++ rest), ?_⟩
      simp [Token.textOf]
    · obtain ⟨before, after, hrest⟩ := ih ha
      refine ⟨Token.textOf (key :: tokens) ++ before, after, ?_⟩
      simp [← hrest]

/-- A tag whose tokens stand in a source lies where they stand. -/
theorem placed_of_written {start line : Nat} {s : Text} {gap written after : List Token}
    {mark : Token} {tag : Tag}
    (hs : Token.listFrom start line s = gap ++ mark :: (written ++ after))
    (h : Written tag (mark :: written)) :
    tag.span = ⟨start + Text.byteSize (Token.textOf gap),
        start + Text.byteSize (Token.textOf gap) +
          Text.byteSize (Token.textOf (mark :: written))⟩ ∧
      tag.line = line + Text.lineBreaks (Token.textOf gap) ∧
      tag.KeptFrom (Token.textOf (mark :: written)) := by
  obtain ⟨hstart, hline⟩ := Token.start_of_listFrom_eq hs
  have stop_eq (init : List Token) {terminator : Token} (hw : written = init ++ [terminator]) :
      terminator.stop = start + Text.byteSize (Token.textOf gap) +
        Text.byteSize (Token.textOf (mark :: written)) := by
    subst hw
    have hs : Token.listFrom start line s = (gap ++ mark :: init) ++ terminator :: after := by
      simpa using hs
    simp [Token.stop, (Token.start_of_listFrom_eq hs).1, Nat.add_assoc]
  have mem {t : Token} (ht : t ∈ mark :: written) : t ∈ Token.listFrom start line s := by
    rw [hs]
    simp only [List.mem_append, List.mem_cons] at ht ⊢
    rcases ht with rfl | ht <;> simp [*]
  have chars {t : Token} (ht : t ∈ mark :: written) (hk : t.kind = .identifier) :
      ∀ c ∈ t.text, Token.isNameChar c := fun _ hc =>
    Token.isNameChar_of_mem_identifier (mem ht) hk hc
  have mark_angle (hk : mark.kind = .tagStart ∨ mark.kind = .closingTagStart ∨
      mark.kind = .leftAngle) : 0 < mark.text.count '<' :=
    List.count_pos_iff.2 (Token.mem_text_of_opens (mem (by simp)) hk)
  have identifier_of {name : Token} (hn : name.isTagName) : name.kind = .identifier := by
    simp only [Token.isTagName, Bool.and_eq_true, beq_iff_eq] at hn
    exact hn.1
  cases h with
  | @opening _ name terminator before between tokens entries kind hm hn hb ha hk =>
    have hangle := mark_angle (by cases hm <;> simp [*])
    have count_le (c : Char) : ((Keyed.ofList entries).flatMap Prod.snd).count c ≤
        (Token.textOf tokens).count c :=
      Nat.le_trans (Keyed.count_ofList_le c entries) (count_le_of_writtenAttributes ha c)
    have angles_le := count_le '<'
    have breaks_le := count_le '\n'
    refine ⟨?_, hline, chars (by simp) (identifier_of hn), fun a hm => ?_, ?_, ?_, fun a hm => ?_,
      ?_⟩
    · simp only [hstart, Span.mk.injEq, true_and]
      exact stop_eq (before ++ name :: (between ++ tokens)) (by simp)
    · obtain ⟨key, hm', hk', he⟩ :=
        exists_identifier_of_writtenAttributes ha (Keyed.mem_of_mem_ofList hm)
      exact he ▸ chars (by simp [hm']) hk'
    · simp only [Attributes.angles, Token.textOf_cons, Token.textOf_append,
        List.count_append] at *
      omega
    · simp only [Text.lineBreaks, Token.textOf_cons, Token.textOf_append, List.count_append]
      omega
    · have hne : mark.text ≠ [] := List.ne_nil_of_mem (List.count_pos_iff.1 hangle)
      obtain ⟨c, rest, hc⟩ := List.exists_cons_of_ne_nil hne
      obtain ⟨l, r, hinfix⟩ := value_infix_of_writtenAttributes ha (Keyed.mem_of_mem_ofList hm)
      refine ⟨rest ++ Token.textOf (before ++ name :: between) ++ l,
        r ++ Token.textOf [terminator], ?_⟩
      simp [hc, ← hinfix]
    · rintro rfl
      simp at hk
  | @closing _ name terminator between hm hn hb hk =>
    have hangle := mark_angle (by simp [hm])
    refine ⟨?_, hline, chars (by simp) (identifier_of hn), by simp, ?_, by simp, by simp,
      fun _ => rfl⟩
    · simp only [hstart, Span.mk.injEq, true_and]
      exact stop_eq (name :: between) (by simp)
    · simp only [Attributes.angles, List.flatMap_nil, List.count_nil, Token.textOf_cons,
        List.count_append]
      omega

theorem placed_of_listOfTokens {start line : Nat} {s : Text} {tags : List Tag}
    (h : listOfTokens (Token.listFrom start line s) = .ok tags) : Placed start line s tags := by
  generalize ht : Token.listFrom start line s = tokens at h
  fun_induction listOfTokens tokens generalizing start line s tags with
  | case1 => cases h
  | case2 => cases h; exact .nil ..
  | case3 tokens tag after hn _ ih =>
    cases hr : listOfTokens after with
    | error e => simp [hr, Except.map] at h
    | ok rest =>
      simp only [hr, Except.map, Except.ok.injEq] at h
      subst h
      obtain ⟨gap, mark, written, hs, hw⟩ := next?_eq_append hn
      have hs := ht.trans hs
      obtain ⟨hspan, hline, hkept⟩ := placed_of_written hs (hw fun hk => by
        obtain ⟨_, _, hr⟩ := Token.listFrom_eq_append hs
        obtain ⟨name, rest, hn, hname⟩ := Token.exists_isTagName_of_opens hr.symm hk
        simp [hn, hname])
      have split : Token.listFrom start line s = (gap ++ mark :: written) ++ after := by
        simpa using hs
      obtain ⟨text, rfl, ha⟩ := Token.listFrom_eq_append split
      have := Placed.cons hspan hline hkept (ih (s := text) (by
        rw [ha]
        simp [Nat.add_assoc]) hr)
      simpa using this

/-- The tags of a source lie in it one after another. -/
theorem placed_of_list {source : Text} {tags : List Tag} (h : list source = .ok tags) :
    Placed 0 1 source tags :=
  placed_of_listOfTokens h

end Tag

end ComponentTags
