import Mathlib
import ComponentTags.Proofs.Tag.Marked
import ComponentTags.Proofs.Token.Shape

/-!
# Coverage

The tokens of a source are the tokens of its tags with gaps between them in which no mark stands
directly before a name. So the tags lie in the source one after another, and every such mark is the
start of one of them or lies inside one. That a search fails at one `<` hides no tag after it.
-/

namespace ComponentTags

namespace Tag

open Token (opensName opensEnd)

/-- Whether the token is a mark directly before a name. -/
def Opens (t : Token) : Prop :=
  t.kind = .tagStart ∨ t.kind = .closingTagStart

/-- Tokens with the tags that are read among them. -/
inductive Laid : List Token → List Tag → Prop where
  | nil {gap : List Token} : (∀ t ∈ gap, ¬ Opens t) → Laid gap []
  | cons {gap written rest : List Token} {mark : Token} {tag : Tag} {tags : List Tag} :
      (∀ t ∈ gap, ¬ Opens t) → Written tag (mark :: written) → Laid rest tags →
      Laid (gap ++ mark :: (written ++ rest)) (tag :: tags)

theorem laid_of_listOfTokens {start line : Nat} {s : Text} {tags : List Tag}
    (h : listOfTokens (Token.listFrom start line s) = .ok tags) :
    Laid (Token.listFrom start line s) tags := by
  generalize ht : Token.listFrom start line s = tokens at h
  fun_induction listOfTokens tokens generalizing start line s tags with
  | case1 => cases h
  | case2 tokens hn =>
    cases h
    exact .nil fun t hm => not_or.2 (not_opens_of_next?_none hn t hm)
  | case3 tokens tag after hn _ ih =>
    cases hr : listOfTokens after with
    | error e => simp [hr, Except.map] at h
    | ok rest =>
      simp only [hr, Except.map, Except.ok.injEq] at h
      subst h
      obtain ⟨gap, mark, written, hsplit, hgap, hread⟩ := exists_readAs_of_next? hn
      obtain ⟨_, -, hs⟩ := Token.listFrom_eq_append (ht.trans hsplit)
      obtain ⟨_, -, hafter⟩ := Token.listFrom_eq_append
        (show _ = (mark :: written) ++ after from hs.symm)
      rw [hsplit]
      exact .cons (fun t hm => not_or.2 (hgap t hm)) (hread.written_of_listFrom hs.symm)
        (ih hafter.symm hr)

variable {start line : Nat} {s : Text} {tokens : List Token} {tags : List Tag}

theorem Laid.exists_written (h : Laid tokens tags) {tag : Tag} (ht : tag ∈ tags) :
    ∃ before mark written after, tokens = before ++ mark :: (written ++ after) ∧
      Written tag (mark :: written) := by
  induction h with
  | nil => cases ht
  | @cons gap written rest mark tag' tags _ hw _ ih =>
    rcases List.mem_cons.1 ht with rfl | ht
    · exact ⟨gap, mark, written, rest, rfl, hw⟩
    · obtain ⟨before, mark', written', after, rfl, hw'⟩ := ih ht
      exact ⟨gap ++ mark :: (written ++ before), mark', written', after, by simp, hw'⟩

/-! ## Nothing is missed -/

/-- The tokens of a tag begin inside its span. -/
theorem start_mem_span {gap written after : List Token} {mark t : Token} {tag : Tag}
    (hs : Token.listFrom start line s = gap ++ mark :: (written ++ after))
    (h : Written tag (mark :: written)) (ht : t ∈ mark :: written) :
    tag.span.start ≤ t.start ∧ t.start < tag.span.stop := by
  obtain ⟨first, rest, hsplit⟩ := List.append_of_mem ht
  have hs' : Token.listFrom start line s = (gap ++ first) ++ t :: (rest ++ after) := by
    rw [hs, ← List.cons_append, hsplit]
    simp
  have hstart := (Token.start_of_listFrom_eq hs').1
  have hlexed := Token.lexed_listFrom start line s
  rw [hs'] at hlexed
  have hpos : Text.byteSize t.text ≠ 0 := fun h => hlexed.shape.ne_nil (Text.byteSize_eq_zero.1 h)
  have hspan := (placed_of_written hs h).1
  rw [hsplit] at hspan
  simp only [hspan, hstart, Token.textOf_append, Token.textOf_cons, Text.byteSize_append]
  omega

theorem Laid.exists_mem_of_opens (h : Laid tokens tags) (done : List Token)
    (hs : Token.listFrom start line s = done ++ tokens) {t : Token} (ht : t ∈ tokens)
    (ho : Opens t) : ∃ tag ∈ tags, tag.span.start ≤ t.start ∧ t.start < tag.span.stop := by
  induction h generalizing done with
  | nil hgap => exact absurd ho (hgap t ht)
  | @cons gap written rest mark tag tags hgap hw _ ih =>
    rw [← List.append_assoc] at hs
    rcases List.mem_append.1 ht with ht | ht
    · exact absurd ho (hgap t ht)
    · rw [← List.cons_append] at ht
      rcases List.mem_append.1 ht with ht | ht
      · exact ⟨tag, List.mem_cons_self, start_mem_span hs hw ht⟩
      · obtain ⟨tag', hm, hspan⟩ := ih (done ++ gap ++ mark :: written) (by simp [hs]) ht
        exact ⟨tag', List.mem_cons_of_mem _ hm, hspan⟩

/-- Where a `<` stands before a name, or before the `/` of an end tag, a token opens a tag. -/
theorem exists_opens (start line : Nat) (before : Text) {after : Text}
    (h : opensName after ∨ opensEnd after) :
    ∃ t ∈ Token.listFrom start line (before ++ '<' :: after),
      Opens t ∧ t.start = start + Text.byteSize before := by
  have hcut : Token.Cut before ('<' :: after) := Token.cut_cons rfl before after
  rw [Token.listFrom_append hcut, Token.listFrom]
  refine ⟨_, List.mem_append_right _ List.mem_cons_self, ?_, rfl⟩
  simp only [Opens, Token.first, Token.lex_angle]
  by_cases ho : opensName after
  · simp [ho]
  · simp [ho, h.resolve_left ho]

/-! ## Order and place -/

theorem Placed.le_start (h : Placed start line s tags) : ∀ tag ∈ tags, start ≤ tag.span.start := by
  induction h with
  | nil => simp
  | cons hspan _ _ _ ih =>
    refine List.forall_mem_cons.2 ⟨by simp [hspan], fun tag hm => ?_⟩
    have := ih tag hm
    omega

theorem Placed.pairwise (h : Placed start line s tags) :
    tags.Pairwise fun t u => t.span.stop ≤ u.span.start := by
  induction h with
  | nil => exact .nil
  | cons hspan _ _ hrest ih =>
    refine List.pairwise_cons.2 ⟨fun tag hm => ?_, ih⟩
    rw [hspan]
    exact hrest.le_start tag hm

/-- A tag lies in a source: what stands before it decides on its offset and its line. -/
structure LiesIn (tag : Tag) (source : Text) : Prop where
  nonempty : tag.span.start < tag.span.stop
  inside : tag.span.stop ≤ Text.byteSize source
  place : ∃ before after, source = before ++ after ∧ tag.span.start = Text.byteSize before ∧
    tag.line = 1 + Text.lineBreaks before

theorem Placed.liesIn {source : Text} (h : Placed start line s tags) (done : Text)
    (hs : source = done ++ s) (hstart : start = Text.byteSize done)
    (hline : line = 1 + Text.lineBreaks done) : ∀ tag ∈ tags, tag.LiesIn source := by
  induction h generalizing done with
  | nil => simp
  | @cons start line gap head rest tag tags hspan htag hkept _ ih =>
    have hpos : Text.byteSize head ≠ 0 := by
      intro h
      have := hkept.angles_lt
      simp [Text.byteSize_eq_zero.1 h] at this
    refine List.forall_mem_cons.2 ⟨⟨?_, ?_, ?_⟩, ih (done ++ gap ++ head) ?_ ?_ ?_⟩
    · simp only [hspan]
      omega
    · simp only [hspan, hs, hstart, Text.byteSize_append]
      omega
    · exact ⟨done ++ gap, head ++ rest, by simp [hs], by simp [hspan, hstart],
        by simp [htag, hline, Nat.add_assoc]⟩
    · simp [hs]
    · simp [hstart, Nat.add_assoc]
    · simp [hline, Nat.add_assoc]

/-- The tags of a source lie in it in order and apart from each other, and no mark directly before a
name is missed: it is the start of a tag or lies inside one. -/
theorem liesIn_and_covered {source : Text} {tags : List Tag} (h : list source = .ok tags) :
    (∀ tag ∈ tags, tag.LiesIn source) ∧
      tags.Pairwise (fun t u => t.span.start < u.span.start ∧ t.span.stop ≤ u.span.start) ∧
      ∀ before after, source = before ++ '<' :: after → opensName after ∨ opensEnd after →
        ∃ tag ∈ tags, tag.span.start = Text.byteSize before ∨
          tag.span.start < Text.byteSize before ∧ Text.byteSize before < tag.span.stop := by
  have hplaced := placed_of_list h
  have hlies := hplaced.liesIn [] rfl rfl rfl
  refine ⟨hlies, ?_, ?_⟩
  · refine hplaced.pairwise.imp_of_mem fun ht _ hle => ⟨?_, hle⟩
    exact Nat.lt_of_lt_of_le (hlies _ ht).nonempty hle
  · rintro before after rfl hopens
    obtain ⟨t, ht, ho, hstart⟩ := exists_opens 0 1 before hopens
    obtain ⟨tag, hm, hle, hlt⟩ := (laid_of_listOfTokens h).exists_mem_of_opens
      [] rfl ht ho
    rw [Nat.zero_add] at hstart
    exact ⟨tag, hm, by omega⟩

/-- A source in which the search for a tag at the first `<` reads as far as the `/>` and fails. -/
def retriedSource : Text :=
  "< A b <C d='<E'/>\n</A>".toList

def retriedTags : List Tag :=
  [⟨['C'], .selfClosing, [(['d'], ['<', 'E'])], ⟨6, 17⟩, 1⟩, ⟨['A'], .closing, [], ⟨18, 22⟩, 2⟩]

theorem list_retriedSource : list retriedSource = .ok retriedTags := by
  have hfirst : next? (Token.list retriedSource) =
      .ok (some (⟨['C'], .selfClosing, [(['d'], ['<', 'E'])], ⟨6, 17⟩, 1⟩,
        (Token.list retriedSource).drop 16)) := by cbv
  have hsecond : next? ((Token.list retriedSource).drop 16) =
      .ok (some (⟨['A'], .closing, [], ⟨18, 22⟩, 2⟩, [])) := by cbv
  exact listOfTokens_some hfirst (listOfTokens_some hsecond (listOfTokens_none rfl))

theorem liesIn_and_covered_retriedSource :
    list retriedSource = .ok retriedTags ∧ (∀ tag ∈ retriedTags, tag.LiesIn retriedSource) ∧
      (retriedTags.Pairwise fun t u =>
        t.span.start < u.span.start ∧ t.span.stop ≤ u.span.start) ∧
      ∀ before after, retriedSource = before ++ '<' :: after →
        opensName after ∨ opensEnd after →
          ∃ tag ∈ retriedTags, tag.span.start = Text.byteSize before ∨
            tag.span.start < Text.byteSize before ∧ Text.byteSize before < tag.span.stop :=
  ⟨list_retriedSource, liesIn_and_covered list_retriedSource⟩

end Tag
end ComponentTags
