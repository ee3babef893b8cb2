import Mathlib
import ComponentTags.Document
import ComponentTags.Proofs.Forest.Plain
import ComponentTags.Proofs.Tag.Coverage

/-!
# Tags in any context

The text of a tag is read as that tag alone, whatever stands around it in a source. Text without a
`<` in front of a source is passed over: the tags of the source, or the error in it, are the same
and only stand further on. So a layout that is put in front as a statement changes no tag.
-/

namespace ComponentTags

/-- How far a text moves what stands behind it. -/
def Place.extent (lead : Text) : Place :=
  ⟨Text.byteSize lead, Text.lineBreaks lead⟩

/-- What stands behind a text is cut into the tokens that it has without the text, moved. -/
theorem Token.listAt_past (p : Place) (lead s : Text) :
    listAt (p.past lead) s = (listAt p s).map (moved (.extent lead)) := by
  have hmoved := listFrom_moved (.extent lead) p.offset p.line s
  rw [Nat.add_comm, Nat.add_comm _ p.line] at hmoved
  exact hmoved

/-- A text up to its first `<`, and what follows. -/
theorem Token.exists_split_of_angle (s : Text) :
    ∃ before after, s = before ++ after ∧ '<' ∉ before ∧ after.head?.all isInert := by
  refine ⟨s.takeWhile (· ≠ '<'), s.dropWhile (· ≠ '<'),
    List.takeWhile_append_dropWhile.symm, ?_, ?_⟩
  · intro hm
    have := List.all_eq_true.1 List.all_takeWhile _ hm
    simp at this
  · cases hafter : s.dropWhile (· ≠ '<') with
    | nil => rfl
    | cons c after =>
      have hc := List.head?_dropWhile_not (· ≠ '<') s
      rw [hafter] at hc
      obtain rfl : c = '<' := by simpa using hc
      rfl

namespace Tag

/-- The tag in a text that holds nothing else. -/
def alone (t : Tag) : Tag :=
  { t with span := ⟨0, t.span.length⟩, line := 1 }

/-! ## What stands around a tag -/

theorem list_of_sound {m : Mark} (h : m.Sound) : list m.text = .ok [m.placed .first] := by
  have hreadable : Mark.Readable [(m, [])] := by simpa [Mark.Readable] using ⟨h, trivial⟩
  have hlead : Token.Plain [] := trivial
  have hlist := Mark.listOfTokens_marked hlead hreadable .first
  rwa [Mark.textOf_cons, Mark.textOf_nil, List.append_nil, List.append_nil, List.nil_append]
    at hlist

/-- Where a tag is read, its span covers a text that is read as the tag in every place. -/
theorem sound_of_mem {source : Text} {p : Place} {s : Text} {tags : List Tag}
    (h : listOfTokens (Token.listAt p s) = .ok tags) (hs : p.Begins s source) :
    ∀ tag ∈ tags, (⟨tag, tag.span.of source⟩ : Mark).Sound ∧
      tag.span.length = Text.byteSize (tag.span.of source) := by
  generalize ht : Token.listAt p s = tokens at h
  fun_induction listOfTokens tokens generalizing p s tags with
  | case1 => cases h
  | case2 =>
    cases h
    simp
  | case3 tokens tag after hn _ ih =>
    cases hr : listOfTokens after with
    | error e => simp [hr, Except.map] at h
    | ok tags' =>
      simp only [hr, Except.map, Except.ok.injEq] at h
      subst h
      obtain ⟨gap, mark, written, hsplit, -, hread⟩ := exists_readAs_of_next? hn
      obtain ⟨s', rfl, hs'⟩ := Token.listFrom_eq_append (ht.trans hsplit)
      obtain ⟨hsound, hplaced, rest, rfl, hafter⟩ :=
        Mark.sound_of_readAs (q := p.past (Token.textOf gap)) hs'.symm hread
      refine List.forall_mem_cons.2 ⟨?_, ih hs.past.past hafter.symm hr⟩
      have hspan := congrArg Tag.span hplaced
      rw [← hspan]
      have hof : Span.of ((⟨tag, Token.textOf (mark :: written)⟩ : Mark).placed
          (p.past (Token.textOf gap))).span source = Token.textOf (mark :: written) :=
        hs.past.slice
      rw [hof]
      exact ⟨hsound, by simp [Mark.placed, Span.length]⟩

/-- The text of a tag is read as that tag alone. -/
theorem list_span_of {source : Text} {tags : List Tag} (h : list source = .ok tags) :
    ∀ tag ∈ tags, list (tag.span.of source) = .ok [tag.alone] := by
  intro tag hm
  have hplaced : listOfTokens (Token.listAt .first source) = .ok tags := h
  obtain ⟨hsound, hlength⟩ := sound_of_mem hplaced (Place.begins_first source) tag hm
  rw [list_of_sound hsound, alone, hlength]
  simp [Mark.placed, Place.first]

/-! ## What stands before a source -/

theorem listOfTokens_congr {tokens tokens' : List Token} (h : next? tokens = next? tokens') :
    listOfTokens tokens = listOfTokens tokens' := by
  rw [listOfTokens_eq, listOfTokens_eq tokens', h]

/-- The tags of a text are those after its plain beginning. -/
theorem listOfTokens_plain {gap : Text} (hgap : Token.Plain gap) {t : Text}
    (ht : t.head?.all Token.isInert) (p : Place) :
    listOfTokens (Token.listAt p (gap ++ t)) = listOfTokens (Token.listAt (p.past gap) t) :=
  listOfTokens_congr (next?_plain hgap ht p)

/-- The tags or the error of a source that stands behind a text. -/
def behind (lead : Text) (tags : Except Error (List Tag)) : Except Error (List Tag) :=
  (tags.mapError (Error.moved (.extent lead))).map (List.map (moved (.extent lead)))

theorem list_append {lead : Text} (hlead : '<' ∉ lead) (source : Text) :
    list (lead ++ source) = behind lead (list source) := by
  obtain ⟨before, after, rfl, hbefore, hafter⟩ := Token.exists_split_of_angle source
  have plain {s : Text} (hs : '<' ∉ s) : Token.Plain s := by
    have := Token.plain_append_of_notMem hs []
    simpa [Token.Plain] using this
  -- both searches come to the first `<`, and there the tokens differ in their places alone
  have hsource : list (before ++ after) =
      listOfTokens (Token.listAt (Place.first.past before) after) :=
    listOfTokens_plain (plain hbefore) hafter .first
  have hplace : Place.first.past (lead ++ before) = (Place.first.past before).past lead := by
    simp [Place.past, Nat.add_comm, Nat.add_left_comm]
  calc list (lead ++ (before ++ after))
      = listOfTokens (Token.listAt .first ((lead ++ before) ++ after)) := by
        rw [List.append_assoc]
        rfl
    _ = listOfTokens (Token.listAt ((Place.first.past before).past lead) after) := by
        rw [listOfTokens_plain (plain (by simp [hlead, hbefore])) hafter, hplace]
    _ = behind lead (listOfTokens (Token.listAt (Place.first.past before) after)) := by
        rw [Token.listAt_past, listOfTokens_map, behind]
    _ = behind lead (list (before ++ after)) := by rw [hsource]

/-- A layout that is put in front of a source changes no tag. -/
theorem list_prepared {s : Source} {layout : Text} (h : s.injected = some layout)
    (hlayout : '<' ∉ layout) :
    list s.prepared =
      behind (Delimited.statement ("extends ".toList ++ Text.quote layout)) (list s.text) := by
  have hlead : '<' ∉ Delimited.statement ("extends ".toList ++ Text.quote layout) :=
    Call.notMem_statement (by simp [Call.notMem_quote hlayout])
  rw [← list_append hlead, Source.prepared, h]

/-- Tags are recognized by their own text. A tag is read from its text alone as it is read in its
source, and what stands before a source without a `<`, such as a layout in front, moves the spans
and the lines of its tags and the line of its error and changes nothing else. -/
theorem list_in_any_context (source : Text) :
    (∀ tags, list source = .ok tags → ∀ tag ∈ tags, list (tag.span.of source) = .ok [tag.alone]) ∧
    (∀ lead, '<' ∉ lead → list (lead ++ source) = behind lead (list source)) ∧
    ∀ s : Source, s.text = source → ∀ layout, s.injected = some layout → '<' ∉ layout →
      list s.prepared =
        behind (Delimited.statement ("extends ".toList ++ Text.quote layout)) (list source) :=
  ⟨fun _ h => list_span_of h, fun _ hlead => list_append hlead source,
    fun _ hs _ h hlayout => hs ▸ list_prepared h hlayout⟩

/-- A source with tags of all forms, one of which stands behind other text and holds a `<`. -/
def spacedSource : Text :=
  "x< Card\n a='<'>\n</Card><Icon/>".toList

def spacedTags : List Tag :=
  [⟨"Card".toList, .opening, [(['a'], ['<'])], ⟨1, 15⟩, 1⟩,
    ⟨"Card".toList, .closing, [], ⟨16, 23⟩, 3⟩,
    ⟨"Icon".toList, .selfClosing, [], ⟨23, 30⟩, 3⟩]

theorem list_spacedSource : list spacedSource = .ok spacedTags := by
  have hfirst : next? (Token.list spacedSource) =
      .ok (some (⟨"Card".toList, .opening, [(['a'], ['<'])], ⟨1, 15⟩, 1⟩,
        (Token.list spacedSource).drop 11)) := by cbv
  have hsecond : next? ((Token.list spacedSource).drop 11) =
      .ok (some (⟨"Card".toList, .closing, [], ⟨16, 23⟩, 3⟩,
        (Token.list spacedSource).drop 15)) := by cbv
  have hthird : next? ((Token.list spacedSource).drop 15) =
      .ok (some (⟨"Icon".toList, .selfClosing, [], ⟨23, 30⟩, 3⟩, [])) := by cbv
  exact listOfTokens_some hfirst
    (listOfTokens_some hsecond (listOfTokens_some hthird (listOfTokens_none rfl)))

/-- The letter before the line break takes two bytes. -/
theorem list_in_any_context_spacedSource :
    list spacedSource = .ok spacedTags ∧
    (∀ tag ∈ spacedTags, list (tag.span.of spacedSource) = .ok [tag.alone]) ∧
    list ("é\n".toList ++ spacedSource) =
      .ok [⟨"Card".toList, .opening, [(['a'], ['<'])], ⟨4, 18⟩, 2⟩,
        ⟨"Card".toList, .closing, [], ⟨19, 26⟩, 4⟩,
        ⟨"Icon".toList, .selfClosing, [], ⟨26, 33⟩, 4⟩] ∧
    list (⟨['p'], none, spacedSource, .entry, some ['b']⟩ : Source).prepared =
      .ok [⟨"Card".toList, .opening, [(['a'], ['<'])], ⟨18, 32⟩, 1⟩,
        ⟨"Card".toList, .closing, [], ⟨33, 40⟩, 3⟩,
        ⟨"Icon".toList, .selfClosing, [], ⟨40, 47⟩, 3⟩] := by
  obtain ⟨halone, hbehind, hprepared⟩ := list_in_any_context spacedSource
  refine ⟨list_spacedSource, halone spacedTags list_spacedSource, ?_, ?_⟩
  · rw [hbehind "é\n".toList (by decide), list_spacedSource]
    decide
  · rw [hprepared ⟨['p'], none, spacedSource, .entry, some ['b']⟩ rfl ['b'] rfl (by decide),
      list_spacedSource]
    decide

end Tag

end ComponentTags
