import ComponentTags.Proofs.Expansion.Ranges

/-!
# Leaf blocks and the innermost one

A pass replaces all leaf blocks of a source, the loop a single innermost block. The leaf blocks are
found by what stands directly after a tag, the single block by the last start tag and what follows
it, and neither search looks at the names of all tags. Once the tags are paired, both are right: the
leaf blocks are the self-closing tags and the pairs that enclose no tag, side by side and in order,
and the innermost block is one of them.
-/

namespace ComponentTags

/-! ## Neighbours in a matching -/

namespace Matching

variable {tags before rest : List Tag} {pairs : List (Nat × Nat)} {i : Nat} {tag start finish : Tag}

theorem exists_fst_eq (h : Matching tags pairs) (hi : tags[i]? = some tag)
    (hk : tag.kind = .opening) : ∃ pair ∈ pairs, pair.1 = i :=
  List.mem_map.1 (List.count_pos_iff.1 (by rw [h.starts i tag hi hk]; exact Nat.one_pos))

theorem exists_snd_eq (h : Matching tags pairs) (hi : tags[i]? = some tag)
    (hk : tag.kind = .closing) : ∃ pair ∈ pairs, pair.2 = i :=
  List.mem_map.1 (List.count_pos_iff.1 (by rw [h.ends i tag hi hk]; exact Nat.one_pos))

/-- A start tag directly before an end tag is closed by it: a pair that ends there and begins
earlier would end inside the pair of the start tag. -/
theorem mem_of_adjacent (h : Matching (before ++ start :: finish :: rest) pairs)
    (hs : start.kind = .opening) (hf : finish.kind = .closing) :
    (before.length, before.length + 1) ∈ pairs := by
  obtain ⟨inner, hinner, hbegin⟩ := h.exists_fst_eq (i := before.length) (by simp) hs
  obtain ⟨outer, houter, hend⟩ := h.exists_snd_eq (i := before.length + 1) (by simp) hf
  have hinnerlt := (h.joined inner hinner).1
  have houterlt := (h.joined outer houter).1
  rcases Nat.lt_or_ge outer.1 before.length with hlt | hge
  · have := h.nests outer houter inner hinner (by omega) (by omega)
    omega
  · obtain rfl : outer = inner := h.eq_of_fst_eq houter hinner (by omega)
    rw [← hbegin] at hend ⊢
    rwa [← hend]

end Matching

namespace Block

variable {source : Text} {tags before at' rest : List Tag} {pairs : List (Nat × Nat)}
  {block : Block}

/-- Where no innermost block is found the tags cannot be paired. -/
theorem Stuck.not_matching (h : Stuck tags) : ¬ Matching tags pairs := by
  intro hm
  cases h with
  | unmatched rest hf =>
    have hbalanced : Balanced _ :=
      Balanced.exists_pairs_iff.1 ⟨_, Tag.pairs_eq_ok_iff_matching.2 hm⟩
    exact hbalanced.head_kind hf
  | @missing before start hs =>
    obtain ⟨pair, hp, hbegin⟩ := hm.exists_fst_eq (i := before.length) (by simp) hs
    have hlt := (hm.joined pair hp).1
    have hend := (hm.joined pair hp).snd_lt
    simp only [List.length_append, List.length_singleton] at hend
    omega
  | mismatched before rest hs hf hname =>
    obtain ⟨-, start, finish, hstart, hfinish, -, -, hjoined⟩ :=
      hm.joined _ (hm.mem_of_adjacent hs hf)
    obtain rfl : _ = start := by simpa using hstart
    obtain rfl : _ = finish := by simpa using hfinish
    rw [hname] at hjoined
    cases hjoined

/-! ## Leaf blocks as pairs without a tag between -/

/-- A pair of a start tag and an end tag between which there is no tag. -/
def InnermostPair (tags : List Tag) (pairs : List (Nat × Nat)) (start finish : Tag) : Prop :=
  ∃ i j, (i, j) ∈ pairs ∧ tags[i]? = some start ∧ tags[j]? = some finish ∧
    ∀ k tag, tags[k]? = some tag → k ≤ i ∨ j ≤ k

/-- A self-closing tag, or a pair that encloses no tag. -/
inductive IsLeaf (source : Text) (tags : List Tag) (pairs : List (Nat × Nat)) : Block → Prop where
  | single {tag : Tag} :
      tag ∈ tags → tag.kind = .selfClosing → IsLeaf source tags pairs (.ofSelfClosing tag)
  | pair {start finish : Tag} :
      InnermostPair tags pairs start finish →
      IsLeaf source tags pairs (.ofPair source start finish)

theorem mem_leavesOfTags_iff :
    block ∈ leavesOfTags source tags ↔
      ∃ before tag rest, tags = before ++ tag :: rest ∧ leaf? source tag rest = some block := by
  induction tags with
  | nil => simp [leavesOfTags]
  | cons head tail ih =>
    rw [leavesOfTags, List.mem_append, Option.mem_toList, ih]
    constructor
    · rintro (h | ⟨before, tag, rest, rfl, h⟩)
      · exact ⟨[], head, tail, rfl, h⟩
      · exact ⟨head :: before, tag, rest, rfl, h⟩
    · rintro ⟨before, tag, rest, hsplit, h⟩
      cases before with
      | nil =>
        cases hsplit
        exact .inl h
      | cons first before =>
        cases hsplit
        exact .inr ⟨before, tag, rest, rfl, h⟩

theorem leaf?_eq_some_iff {tag : Tag} :
    leaf? source tag rest = some block ↔
      tag.kind = .selfClosing ∧ block = .ofSelfClosing tag ∨
      ∃ finish later, rest = finish :: later ∧ tag.kind = .opening ∧ finish.kind = .closing ∧
        block = .ofPair source tag finish := by
  cases hk : tag.kind with
  | closing => simp [leaf?, hk]
  | selfClosing => simp [leaf?, hk, eq_comm]
  | opening =>
    cases rest with
    | nil => simp [leaf?, hk]
    | cons finish later =>
      by_cases hf : finish.kind = .closing
      · simp [leaf?, hk, Tag.isClosing, hf, eq_comm (a := block)]
      · simp [leaf?, hk, Tag.isClosing, hf]

theorem LeafOf.mem_leavesOfTags (h : LeafOf source at' block) :
    block ∈ leavesOfTags source (before ++ at') := by
  rw [mem_leavesOfTags_iff]
  cases h with
  | single rest hk => exact ⟨before, _, rest, rfl, leaf?_eq_some_iff.2 (.inl ⟨hk, rfl⟩)⟩
  | pair rest hs hf _ =>
    exact ⟨before, _, _ :: rest, rfl, leaf?_eq_some_iff.2 (.inr ⟨_, rest, rfl, hs, hf, rfl⟩)⟩

/-- The two tags of an innermost pair are neighbours. -/
theorem InnermostPair.exists_split (hm : Matching tags pairs) {start finish : Tag}
    (h : InnermostPair tags pairs start finish) :
    ∃ before rest, tags = before ++ start :: finish :: rest ∧
      start.kind = .opening ∧ finish.kind = .closing := by
  obtain ⟨i, j, hp, hi, hj, hbetween⟩ := h
  obtain ⟨hlt, start', finish', hi', hj', hs, hf, -⟩ := hm.joined _ hp
  obtain rfl := Option.some.inj (hi.symm.trans hi')
  obtain rfl := Option.some.inj (hj.symm.trans hj')
  have hlength := lt_length_of_getElem? hj
  -- the tag after the start tag would stand between the two
  have hnext : j = i + 1 := by
    have := hbetween (i + 1) tags[i + 1] (List.getElem?_eq_getElem (by omega))
    omega
  subst hnext
  obtain ⟨hlt, rfl⟩ := List.getElem?_eq_some_iff.1 hi
  obtain ⟨hltnext, rfl⟩ := List.getElem?_eq_some_iff.1 hj
  refine ⟨tags.take i, tags.drop (i + 1 + 1), ?_, hs, hf⟩
  rw [← List.drop_eq_getElem_cons hltnext, ← List.drop_eq_getElem_cons hlt, List.take_append_drop]

theorem mem_leavesOfTags_iff_isLeaf (hm : Matching tags pairs) :
    block ∈ leavesOfTags source tags ↔ IsLeaf source tags pairs block := by
  rw [mem_leavesOfTags_iff]
  constructor
  · rintro ⟨before, tag, rest, rfl, hleaf⟩
    rcases leaf?_eq_some_iff.1 hleaf with ⟨hk, rfl⟩ | ⟨finish, later, rfl, hs, hf, rfl⟩
    · exact .single (by simp) hk
    · refine .pair ⟨_, _, hm.mem_of_adjacent hs hf, by simp, by simp, fun k _ _ => ?_⟩
      omega
  · rintro (⟨ht, hk⟩ | hpair)
    · obtain ⟨before, rest, hsplit⟩ := List.append_of_mem ht
      exact ⟨before, _, rest, hsplit, leaf?_eq_some_iff.2 (.inl ⟨hk, rfl⟩)⟩
    · obtain ⟨before, rest, hsplit, hs, hf⟩ := hpair.exists_split hm
      exact ⟨before, _, _, hsplit, leaf?_eq_some_iff.2 (.inr ⟨_, rest, rfl, hs, hf, rfl⟩)⟩

end Block

/-! ## Bodies -/

/-- A range that fits is where its text stands. -/
theorem Span.Fits.exists_split {r : Span} {source : Text} (h : r.Fits source) :
    ∃ before after, source = before ++ (r.of source ++ after) ∧ r.start = Text.byteSize before ∧
      r.stop = Text.byteSize (before ++ r.of source) := by
  obtain ⟨before, rest, rfl, hstart⟩ := h.start_boundary
  obtain ⟨upto, after, hsplit, hstop⟩ := h.stop_boundary
  have hle := h.start_le_stop
  obtain ⟨inside, rfl, rfl⟩ : ∃ inside, upto = before ++ inside ∧ rest = inside ++ after := by
    rcases List.append_eq_append_iff.1 hsplit with ⟨inside, hupto, hrest⟩ | ⟨back, hbefore, hafter⟩
    · exact ⟨inside, hupto, hrest⟩
    · -- the second boundary lies no earlier than the first one
      have hnil : back = [] := by
        rw [hstart, hstop, hbefore, Text.byteSize_append] at hle
        exact Text.byteSize_eq_zero.1 (by omega)
      subst hnil
      exact ⟨[], by simpa using hbefore.symm, by simpa using hafter.symm⟩
  have hinside : r.of (before ++ (inside ++ after)) = inside := by
    rw [Span.of, hstart, hstop, Text.byteSize_append, ← List.append_assoc, Text.slice_append]
  exact ⟨before, after, by rw [hinside], hstart, by rw [hinside, hstop]⟩

namespace Block

variable {source : Text} {tags : List Tag} {pairs : List (Nat × Nat)} {start finish : Tag}
  {blocks : List Block} {block : Block}

/-- A text that stands at a range of a source and that no tag meets. -/
structure StandsFree (source : Text) (tags : List Tag) (r : Span) (text : Text) : Prop where
  exists_split : ∃ before after, source = before ++ (text ++ after) ∧
    r.start = Text.byteSize before ∧ r.stop = Text.byteSize (before ++ text)
  apart : ∀ tag ∈ tags, tag.span.stop ≤ r.start ∨ r.stop ≤ tag.span.start

/-- Tags stand one after another, so what is between two neighbours is free of tags. -/
theorem InnermostPair.standsFree (hl : Tag.list source = .ok tags) (hm : Matching tags pairs)
    (h : InnermostPair tags pairs start finish) :
    StandsFree source tags ⟨start.span.stop, finish.span.start⟩
      (ofPair source start finish).body := by
  obtain ⟨before, rest, rfl, -, -⟩ := h.exists_split hm
  have hneighbours : [start, finish].Sublist (before ++ start :: finish :: rest) :=
    List.Sublist.trans (by simp) (List.sublist_append_right before _)
  refine ⟨(Tag.fits_between hl hneighbours).exists_split, fun tag ht => ?_⟩
  have hsize := fun tag ht => (Tag.fits_of_mem hl tag ht).start_le_stop
  obtain ⟨-, hlater, hearlier⟩ := List.pairwise_append.1 (Tag.placed_of_list hl).pairwise
  rcases List.mem_append.1 ht with ht | ht
  · have hstart := hearlier tag ht start List.mem_cons_self
    exact .inl (hstart.trans (hsize start (by simp)))
  · rcases List.mem_cons.1 ht with rfl | ht
    · exact .inl le_rfl
    · rcases List.mem_cons.1 ht with rfl | ht
      · exact .inr le_rfl
      · have hstop := List.rel_of_pairwise_cons hlater.tail ht
        exact .inr ((hsize finish (by simp)).trans hstop)

/-! ## Leaf blocks and the innermost block -/

theorem MadeOf.full_nonempty (h : MadeOf source tags block) (hl : Tag.list source = .ok tags) :
    block.full.start < block.full.stop := by
  have hlies := (Tag.liesIn_and_covered hl).1
  cases h with
  | single ht => exact (hlies _ ht).nonempty
  | @pair start finish hs =>
    have hstart := (hlies start (hs.subset (by simp))).nonempty
    have hfinish := (Tag.fits_of_mem hl finish (hs.subset (by simp))).start_le_stop
    exact (hstart.trans_le (Tag.stop_le_start_of_sublist hl hs)).trans_le hfinish

/-- The leaf blocks of paired tags: which ones they are, their order and what they enclose. -/
structure AreLeaves (source : Text) (tags : List Tag) (pairs : List (Nat × Nat))
    (blocks : List Block) : Prop where
  mem_iff : ∀ block, block ∈ blocks ↔ IsLeaf source tags pairs block
  ordered : blocks.Pairwise fun b c => b.full.start < c.full.start ∧ b.full.stop ≤ c.full.start
  single : ∀ block ∈ blocks, block.isSelfClosing → block.body = [] ∧ block.head = block.full
  pair : ∀ start finish, InnermostPair tags pairs start finish →
    StandsFree source tags ⟨start.span.stop, finish.span.start⟩ (ofPair source start finish).body
  eq_nil_iff : blocks = [] ↔ tags = []

theorem areLeaves_leavesOfTags (hl : Tag.list source = .ok tags) (hm : Matching tags pairs) :
    AreLeaves source tags pairs (leavesOfTags source tags) where
  mem_iff _ := mem_leavesOfTags_iff_isLeaf hm
  ordered := by
    refine (pairwise_leavesOfTags (Tag.placed_of_list hl).pairwise).imp_of_mem fun hb _ hle => ?_
    exact ⟨((madeOf_of_mem_leavesOfTags hb).full_nonempty hl).trans_le hle, hle⟩
  single block hb hsingle := by
    cases madeOf_of_mem_leavesOfTags hb with
    | single => exact ⟨rfl, rfl⟩
    | pair => cases hsingle
  pair _ _ := InnermostPair.standsFree hl hm
  eq_nil_iff := by
    have hbalanced := Balanced.exists_pairs_iff.1 ⟨pairs, Tag.pairs_eq_ok_iff_matching.2 hm⟩
    refine ⟨eq_nil_of_leavesOfTags_eq_nil hbalanced, ?_⟩
    rintro rfl
    rfl

/-- The leaf blocks of a source are its innermost blocks, and the block that is looked for without
pairing the tags is one of them if there is one. -/
theorem areLeaves_and_innermost (h : leaves source = .ok blocks) :
    ∃ tags pairs, Tag.list source = .ok tags ∧ Tag.pairs tags = .ok pairs ∧
      AreLeaves source tags pairs blocks ∧
      (blocks = [] → innermost source = .ok none) ∧
      (blocks ≠ [] → ∃ block ∈ blocks, innermost source = .ok (some block)) := by
  obtain ⟨tags, hl, hbalanced, rfl⟩ := leaves_eq_ok_iff.1 h
  obtain ⟨pairs, hpairs⟩ := Balanced.exists_pairs_iff.2 hbalanced
  have hm := Tag.pairs_eq_ok_iff_matching.1 hpairs
  have hleaves := areLeaves_leavesOfTags hl hm
  refine ⟨tags, pairs, hl, hpairs, hleaves, ?_⟩
  rcases innermost_cases hl with ⟨rfl, hnone⟩ | ⟨before, leaf, block, rfl, hleaf, hsome⟩ |
    ⟨hstuck, -⟩
  · exact ⟨fun _ => hnone, fun hne => absurd rfl hne⟩
  · have hmem : block ∈ leavesOfTags source (before ++ leaf) := hleaf.mem_leavesOfTags
    exact ⟨fun hnil => absurd hmem (by simp [hnil]), fun _ => ⟨block, hmem, hsome⟩⟩
  · exact absurd hm hstuck.not_matching

/-- A block that encloses text, a pair and a self-closing tag. -/
def enclosingSource : Text :=
  "<A>é<B>x</B> <C/></A>".toList

def enclosingTags : List Tag :=
  [⟨['A'], .opening, [], ⟨0, 3⟩, 1⟩, ⟨['B'], .opening, [], ⟨5, 8⟩, 1⟩,
    ⟨['B'], .closing, [], ⟨9, 13⟩, 1⟩, ⟨['C'], .selfClosing, [], ⟨14, 18⟩, 1⟩,
    ⟨['A'], .closing, [], ⟨18, 22⟩, 1⟩]

theorem list_enclosingSource : Tag.list enclosingSource = .ok enclosingTags := by
  have hfirst : Tag.next? (Token.list enclosingSource) =
      .ok (some (enclosingTags[0], (Token.list enclosingSource).drop 3)) := by cbv
  have hsecond : Tag.next? ((Token.list enclosingSource).drop 3) =
      .ok (some (enclosingTags[1], (Token.list enclosingSource).drop 7)) := by cbv
  have hthird : Tag.next? ((Token.list enclosingSource).drop 7) =
      .ok (some (enclosingTags[2], (Token.list enclosingSource).drop 11)) := by cbv
  have hfourth : Tag.next? ((Token.list enclosingSource).drop 11) =
      .ok (some (enclosingTags[3], (Token.list enclosingSource).drop 15)) := by cbv
  have hfifth : Tag.next? ((Token.list enclosingSource).drop 15) =
      .ok (some (enclosingTags[4], [])) := by cbv
  exact Tag.listOfTokens_some hfirst <| Tag.listOfTokens_some hsecond <|
    Tag.listOfTokens_some hthird <| Tag.listOfTokens_some hfourth <|
    Tag.listOfTokens_some hfifth (Tag.listOfTokens_none rfl)

/-- What the outer block encloses. -/
def enclosingLeaves : List Block :=
  [.ofPair enclosingSource enclosingTags[1] enclosingTags[2], .ofSelfClosing enclosingTags[3]]

theorem areLeaves_and_innermost_enclosingSource :
    leaves enclosingSource = .ok enclosingLeaves ∧
      AreLeaves enclosingSource enclosingTags [(1, 2), (0, 4)] enclosingLeaves ∧
      ∃ block ∈ enclosingLeaves, innermost enclosingSource = .ok (some block) := by
  have hpairs : Tag.pairs enclosingTags = .ok [(1, 2), (0, 4)] := rfl
  have hleaves : leaves enclosingSource = .ok enclosingLeaves := by
    rw [leaves, list_enclosingSource]
    rfl
  obtain ⟨tags, pairs, hl, hp, hare, -, hsome⟩ := areLeaves_and_innermost hleaves
  cases list_enclosingSource.symm.trans hl
  cases hpairs.symm.trans hp
  exact ⟨hleaves, hare, hsome (by simp [enclosingLeaves])⟩

end Block
end ComponentTags
