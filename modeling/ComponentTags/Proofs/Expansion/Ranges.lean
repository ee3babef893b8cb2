import Mathlib
import ComponentTags.Proofs.Block.Innermost
import ComponentTags.Proofs.Block.Matching
import ComponentTags.Proofs.Tag.Coverage
import ComponentTags.Proofs.Token.Lossless

/-!
# Ranges

An expansion takes texts apart by ranges of byte offsets: those of tokens, of attribute values, of
the bodies of blocks and of what stays between blocks. In every text all of them lie in the text,
end no earlier than they start and split no character, so each can be cut out as it is. This rests
on order: tokens tile the text, tags consist of tokens side by side, and leaf blocks of tags.
-/

namespace ComponentTags

/-- An offset between two characters of a text, or at one of its ends. -/
def Text.IsBoundary (source : Text) (offset : Nat) : Prop :=
  ∃ before after, source = before ++ after ∧ offset = Text.byteSize before

/-- A range that can be cut out of a text. -/
structure Span.Fits (r : Span) (source : Text) : Prop where
  start_le_stop : r.start ≤ r.stop
  stop_le_size : r.stop ≤ Text.byteSize source
  start_boundary : Text.IsBoundary source r.start
  stop_boundary : Text.IsBoundary source r.stop

namespace Span

variable {r r' : Span} {source : Text}

theorem fits_of_append (before inside after : Text) :
    Fits ⟨Text.byteSize before, Text.byteSize before + Text.byteSize inside⟩
      (before ++ inside ++ after) where
  start_le_stop := Nat.le_add_right _ _
  stop_le_size := by simp
  start_boundary := ⟨before, inside ++ after, by simp, rfl⟩
  stop_boundary := ⟨before ++ inside, after, rfl, by simp⟩

/-- What stands between two ranges. -/
theorem Fits.between (h : r.Fits source) (h' : r'.Fits source) (hle : r.stop ≤ r'.start) :
    Fits ⟨r.stop, r'.start⟩ source where
  start_le_stop := hle
  stop_le_size := h'.start_le_stop.trans h'.stop_le_size
  start_boundary := h.stop_boundary
  stop_boundary := h'.start_boundary

/-- Two ranges and what stands between them. -/
theorem Fits.cover (h : r.Fits source) (h' : r'.Fits source) (hle : r.stop ≤ r'.start) :
    Fits ⟨r.start, r'.stop⟩ source where
  start_le_stop := (h.start_le_stop.trans hle).trans h'.start_le_stop
  stop_le_size := h'.stop_le_size
  start_boundary := h.start_boundary
  stop_boundary := h'.stop_boundary

theorem fits_zero (source : Text) : Fits ⟨0, 0⟩ source :=
  fits_of_append [] [] source

/-- What follows a range. -/
theorem Fits.toEnd (h : r.Fits source) : Fits ⟨r.stop, Text.byteSize source⟩ source where
  start_le_stop := h.stop_le_size
  stop_le_size := le_rfl
  start_boundary := h.stop_boundary
  stop_boundary := ⟨source, [], by simp, rfl⟩

theorem Fits.of_toEnd (h : r.Fits source) :
    Span.of ⟨r.stop, Text.byteSize source⟩ source = Text.dropBytes r.stop source := by
  obtain ⟨before, after, rfl, hstop⟩ := h.stop_boundary
  have hslice := Text.slice_append before after []
  rw [List.append_nil, ← Text.byteSize_append, ← hstop] at hslice
  rw [Span.of, hslice, hstop, Text.dropBytes_append]

end Span

/-! ## Tokens and values -/

namespace Token

variable {source : Text} {before inner after : List Token} {t u : Token}

theorem fits_of_mem_list (h : t ∈ list source) : t.span.Fits source := by
  obtain ⟨preceding, following, hsource, -, hstart, -⟩ := exists_split_of_mem h
  have hfits := Span.fits_of_append preceding t.text following
  rwa [← hsource, ← hstart] at hfits

/-- What stands between two tokens is the text of the tokens between them. -/
theorem fits_between (h : list source = before ++ t :: (inner ++ u :: after)) :
    Span.Fits ⟨t.stop, u.start⟩ source ∧ Span.of ⟨t.stop, u.start⟩ source = textOf inner := by
  have hu : list source = (before ++ t :: inner) ++ u :: after := by simpa using h
  have hsource : source = textOf (before ++ [t]) ++ textOf inner ++ textOf (u :: after) := by
    conv_lhs => rw [← textOf_listFrom 0 1 source, ← list, h]
    simp
  have hstop : t.stop = Text.byteSize (textOf (before ++ [t])) := by
    rw [stop, (start_of_listFrom_eq h).1]
    simp
  have hstart : u.start =
      Text.byteSize (textOf (before ++ [t])) + Text.byteSize (textOf inner) := by
    rw [(start_of_listFrom_eq hu).1]
    simp [Nat.add_assoc]
  rw [hstart, hstop]
  constructor
  · have hfits := Span.fits_of_append (textOf (before ++ [t])) (textOf inner) (textOf (u :: after))
    rwa [← hsource] at hfits
  · have hslice := Text.slice_append (textOf (before ++ [t])) (textOf inner) (textOf (u :: after))
    rwa [← hsource] at hslice

end Token

namespace Tag

variable {source : Text} {tags : List Tag} {t u : Tag}

/-- A value ends at a token before the next attribute, and it is what the source holds between its
two quotes. -/
theorem exists_finish_of_splitAtLast {p : Token → Bool} {opening : Token}
    {tokens inner trailing : List Token} (htokens : opening :: tokens <:+: Token.list source)
    (h : splitAtLast p (splitAtAttribute tokens).1 = some (inner, trailing)) :
    ∃ finish, tokens[inner.length]? = some finish ∧
      inner.length + 1 ≤ (splitAtAttribute tokens).1.length ∧
      (splitAtAttribute tokens).1.length ≤ tokens.length ∧
      Span.Fits ⟨opening.stop, finish.start⟩ source ∧
      Span.of ⟨opening.stop, finish.start⟩ source = Token.textOf inner := by
  have hall := splitAtAttribute_append tokens
  generalize (splitAtAttribute tokens).1 = written at h hall ⊢
  generalize (splitAtAttribute tokens).2 = next at hall
  obtain ⟨finish, rfl, -⟩ := splitAtLast_eq_append h
  obtain ⟨preceding, following, hlist⟩ := htokens
  subst hall
  have hsplit : Token.list source =
      preceding ++ opening :: (inner ++ finish :: (trailing ++ next ++ following)) := by
    simp [← hlist]
  exact ⟨finish, by simp, by simp, by simp, Token.fits_between hsplit⟩

/-- The quotes around the value of an attribute, among the tokens of attributes. -/
theorem exists_quotes_of_writtenAttributes {entries : List (Text × Text)} {tokens : List Token}
    (h : WrittenAttributes entries tokens) :
    ∀ entry ∈ entries, ∃ before opening inner finish after,
      tokens = before ++ opening :: (inner ++ finish :: after) ∧
      entry.2 = Token.textOf inner := by
  induction h with
  | nil => simp
  | @cons key value written rest entries _ hvalue _ ih =>
    refine List.forall_mem_cons.2 ⟨?_, fun entry he => ?_⟩
    · obtain @⟨before, between, after, inner, assign, opening, finish, _⟩ := hvalue
      exact ⟨key :: (before ++ assign :: between), opening, inner, finish, after ++ rest,
        by simp, rfl⟩
    · obtain ⟨before, opening, inner, finish, after, rfl, hentry⟩ := ih entry he
      exact ⟨key :: (written ++ before), opening, inner, finish, after, by simp, hentry⟩

/-- The values of attributes are cut out of the source. -/
theorem exists_range_of_mem_attributes (h : list source = .ok tags) (ht : t ∈ tags)
    {entry : Text × Text} (he : entry ∈ t.attributes) :
    ∃ r : Span, r.Fits source ∧ entry.2 = r.of source := by
  obtain ⟨before, mark, written, after, hlist, hwritten⟩ :=
    (laid_of_listOfTokens h).exists_written ht
  generalize hmark : mark :: written = tokens at hwritten
  cases hwritten with
  | closing => cases he
  | @opening mark' name terminator space between tokens entries _ _ _ _ hentries _ =>
    obtain ⟨lead, opening, inner, finish, rest, rfl, hentry⟩ :=
      exists_quotes_of_writtenAttributes hentries entry (Keyed.mem_of_mem_ofList he)
    cases hmark
    have hsplit : Token.list source =
        (before ++ mark :: (space ++ name :: (between ++ lead))) ++
          opening :: (inner ++ finish :: (rest ++ terminator :: after)) := by
      rw [Token.list, hlist]
      simp
    obtain ⟨hfits, hof⟩ := Token.fits_between hsplit
    exact ⟨_, hfits, hentry.trans hof.symm⟩

/-! ## Tags -/

theorem Placed.fits {start line : Nat} {s : Text} (h : Placed start line s tags)
    (done : Text) (hsource : source = done ++ s) (hstart : start = Text.byteSize done) :
    ∀ tag ∈ tags, tag.span.Fits source := by
  induction h generalizing done with
  | nil => simp
  | @cons start line gap head rest tag tags hspan _ _ _ ih =>
    refine List.forall_mem_cons.2 ⟨?_, ih (done ++ gap ++ head) ?_ ?_⟩
    · have hfits := Span.fits_of_append (done ++ gap) head rest
      rw [hspan, hsource, hstart]
      simpa using hfits
    · simp [hsource]
    · simp [hstart, Nat.add_assoc]

theorem fits_of_mem (h : list source = .ok tags) : ∀ tag ∈ tags, tag.span.Fits source :=
  (placed_of_list h).fits [] rfl rfl

theorem stop_le_start_of_sublist (h : list source = .ok tags) (hs : [t, u].Sublist tags) :
    t.span.stop ≤ u.span.start := by
  have hpair := (placed_of_list h).pairwise.sublist hs
  simpa using hpair

/-- Between two tags the source can be cut. -/
theorem fits_between (h : list source = .ok tags) (hs : [t, u].Sublist tags) :
    Span.Fits ⟨t.span.stop, u.span.start⟩ source :=
  (fits_of_mem h t (hs.subset (by simp))).between (fits_of_mem h u (hs.subset (by simp)))
    (stop_le_start_of_sublist h hs)

end Tag

/-! ## Blocks -/

namespace Block

variable {source : Text} {tags : List Tag} {block : Block}

/-- A block of one tag or of two tags that stand in this order. -/
inductive MadeOf (source : Text) (tags : List Tag) : Block → Prop where
  | single {tag : Tag} : tag ∈ tags → MadeOf source tags (.ofSelfClosing tag)
  | pair {start finish : Tag} :
      [start, finish].Sublist tags → MadeOf source tags (.ofPair source start finish)

theorem MadeOf.mono {rest : List Tag} (h : MadeOf source rest block) (hs : rest.Sublist tags) :
    MadeOf source tags block := by
  cases h with
  | single hm => exact .single (hs.subset hm)
  | pair hp => exact .pair (hp.trans hs)

theorem madeOf_of_mem_leavesOfTags (h : block ∈ leavesOfTags source tags) :
    MadeOf source tags block := by
  induction tags with
  | nil => simp [leavesOfTags] at h
  | cons tag rest ih =>
    rcases List.mem_append.1 h with h | h
    · simp only [leaf?, Option.mem_toList] at h
      split at h
      · cases h
        exact .single List.mem_cons_self
      · split at h
        · cases h
          exact .pair (by simp)
        · cases h
      · cases h
    · exact (ih h).mono (List.sublist_cons_self _ _)

theorem LeafOf.madeOf (h : LeafOf source tags block) : MadeOf source tags block := by
  cases h with
  | single => exact .single List.mem_cons_self
  | pair => exact .pair (by simp)

theorem MadeOf.exists_start (h : MadeOf source tags block) :
    ∃ tag ∈ tags, block.full.start = tag.span.start := by
  cases h with
  | single hm => exact ⟨_, hm, rfl⟩
  | pair hs => exact ⟨_, hs.subset List.mem_cons_self, rfl⟩

theorem MadeOf.full_fits (h : MadeOf source tags block) (hl : Tag.list source = .ok tags) :
    block.full.Fits source := by
  cases h with
  | single hm => exact Tag.fits_of_mem hl _ hm
  | pair hs =>
    exact (Tag.fits_of_mem hl _ (hs.subset (by simp))).cover
      (Tag.fits_of_mem hl _ (hs.subset (by simp))) (Tag.stop_le_start_of_sublist hl hs)

/-- A block that is cut out of a source, and its body out of the block. -/
structure CutFrom (source : Text) (block : Block) : Prop where
  full_fits : block.full.Fits source
  body_eq : block.hasEnd → ∃ stop ≤ block.full.stop, Span.Fits ⟨block.head.stop, stop⟩ source ∧
    block.body = Span.of ⟨block.head.stop, stop⟩ source

theorem MadeOf.cutFrom (h : MadeOf source tags block) (hl : Tag.list source = .ok tags) :
    CutFrom source block where
  full_fits := h.full_fits hl
  body_eq := by
    intro hend
    cases h with
    | single => cases hend
    | @pair start finish hs =>
      have hfinish := Tag.fits_of_mem hl finish (hs.subset (by simp))
      exact ⟨finish.span.start, hfinish.start_le_stop, Tag.fits_between hl hs, rfl⟩

/-- Leaf blocks lie in a source one after another. -/
theorem pairwise_leavesOfTags
    (h : tags.Pairwise fun t u => t.span.stop ≤ u.span.start) :
    (leavesOfTags source tags).Pairwise fun b c => b.full.stop ≤ c.full.start := by
  induction tags with
  | nil => exact .nil
  | cons tag rest ih =>
    obtain ⟨hfirst, hrest⟩ := List.pairwise_cons.1 h
    -- what stands before some tags stands before the leaves that they make up
    have hbefore {n : Nat} {later : List Tag} (hn : ∀ t ∈ later, n ≤ t.span.start) :
        ∀ b ∈ leavesOfTags source later, n ≤ b.full.start := by
      intro b hb
      obtain ⟨start, hm, hstart⟩ := (madeOf_of_mem_leavesOfTags hb).exists_start
      exact hstart ▸ hn start hm
    cases hk : tag.kind with
    | closing => exact leavesOfTags_closing source rest hk ▸ ih hrest
    | selfClosing =>
      rw [leavesOfTags_selfClosing source rest hk]
      exact List.pairwise_cons.2 ⟨hbefore hfirst, ih hrest⟩
    | opening =>
      cases rest with
      | nil => simp [leavesOfTags, leaf?, hk]
      | cons finish rest =>
        cases hf : finish.isClosing with
        | false =>
          have hnone : leaf? source tag (finish :: rest) = none := by simp [leaf?, hk, hf]
          exact leavesOfTags_skip hnone ▸ ih hrest
        | true =>
          have hclosing : finish.kind = .closing := by simpa [Tag.isClosing] using hf
          have hlater := ih hrest
          rw [leavesOfTags_closing source rest hclosing] at hlater
          rw [leavesOfTags_pair source rest hk hclosing]
          exact List.pairwise_cons.2 ⟨hbefore (List.pairwise_cons.1 hrest).1, hlater⟩

end Block

/-! ## What stays between blocks -/

/-- The ranges of a text that stay when spans are replaced, of which `cursor` is the end of the one
before. -/
def Text.keptRanges (source : Text) (cursor : Nat) : List Span → List Span
  | [] => [⟨cursor, Text.byteSize source⟩]
  | span :: rest => ⟨cursor, span.start⟩ :: keptRanges source span.stop rest

/-- Pieces of a text with the replacements between them. -/
def Text.interleave : List Text → List Text → Text
  | piece :: pieces, replacement :: replacements =>
    piece ++ replacement ++ interleave pieces replacements
  | pieces, _ => pieces.flatten

namespace Text

variable {source : Text} {spans : List Span} {before : Span}

theorem fits_of_mem_keptRanges (hbefore : before.Fits source)
    (hspans : ∀ span ∈ spans, span.Fits source)
    (hordered : (before :: spans).Pairwise fun s t => s.stop ≤ t.start) :
    ∀ r ∈ keptRanges source before.stop spans, r.Fits source := by
  induction spans generalizing before with
  | nil => simpa [keptRanges] using hbefore.toEnd
  | cons span spans ih =>
    obtain ⟨hspan, hspans⟩ := List.forall_mem_cons.1 hspans
    obtain ⟨hfirst, hrest⟩ := List.pairwise_cons.1 hordered
    refine List.forall_mem_cons.2 ⟨?_, ih hspan hspans hrest⟩
    exact hbefore.between hspan (hfirst span List.mem_cons_self)

/-- Putting in replacements keeps the ranges between the spans. -/
theorem splice_eq_interleave (items : List (Span × Text)) (hbefore : before.Fits source)
    (hspans : ∀ item ∈ items, item.1.Fits source) :
    splice source before.stop items =
      interleave ((keptRanges source before.stop (items.map Prod.fst)).map (Span.of · source))
        (items.map Prod.snd) := by
  induction items generalizing before with
  | nil => simp [splice, keptRanges, interleave, hbefore.of_toEnd]
  | cons item items ih =>
    obtain ⟨hitem, hspans⟩ := List.forall_mem_cons.1 hspans
    simp only [splice, List.map_cons, keptRanges, interleave, ih hitem hspans]
    rfl

end Text

/-! ## What is kept in a pass -/

theorem Block.ranges_of_leaves {source : Text} {blocks : List Block}
    (h : leaves source = .ok blocks) :
    (∀ span ∈ blocks.map full, span.Fits source) ∧
      (⟨0, 0⟩ :: blocks.map full).Pairwise fun s t : Span => s.stop ≤ t.start := by
  obtain ⟨tags, hl, rfl⟩ := exists_of_leaves_eq_ok h
  constructor
  · rw [List.forall_mem_map]
    exact fun block hb => (madeOf_of_mem_leavesOfTags hb).full_fits hl
  · refine List.pairwise_cons.2 ⟨fun _ _ => Nat.zero_le _, ?_⟩
    exact List.pairwise_map.2 (pairwise_leavesOfTags (Tag.placed_of_list hl).pairwise)

namespace Expander

theorem map_fst_replacements (number : Nat) (blocks : List Block) :
    (replacements number blocks).map Prod.fst = blocks.map Block.full := by
  rw [replacements, List.map_map]
  conv_rhs => rw [← List.zipIdx_map_fst number blocks, List.map_map]
  rfl

/-- A pass leaves the kept ranges of its text with the calls between them. -/
theorem eq_interleave_of_pass {x y : Expander} {source next : Text} {blocks : List Block}
    (h : Block.leaves source = .ok blocks) (hpass : x.pass source blocks = (y, .ok next)) :
    next = Text.interleave
      ((Text.keptRanges source 0 (blocks.map Block.full)).map (Span.of · source))
      ((replacements (x.issued + 1) blocks).map Prod.snd) := by
  have hspans := (Block.ranges_of_leaves h).1
  rw [← map_fst_replacements (x.issued + 1), List.forall_mem_map] at hspans
  have hsplice := Text.splice_eq_interleave _ (Span.fits_zero source) hspans
  rw [map_fst_replacements] at hsplice
  rw [← hsplice]
  unfold pass at hpass
  split at hpass
  · cases hpass
  · cases hpass
    rfl

end Expander

/-! ## Every range fits -/

/-- What is cut out of a text in the course of a pass, by which ranges, and that these fit. -/
structure Text.RangesFit (source : Text) : Prop where
  tokens : ∀ t ∈ Token.list source, t.span.Fits source ∧ t.text = t.span.of source
  /-- The value after an opening quote, read from the tokens that follow it whether the tag is
  sound or not: the quote that ends it is one of them, and so are those up to the next attribute. -/
  values : ∀ opening tokens inner trailing, opening :: tokens <:+: Token.list source →
    Tag.splitAtLast (·.kind == opening.kind) (Tag.splitAtAttribute tokens).1 =
      some (inner, trailing) →
    ∃ finish, tokens[inner.length]? = some finish ∧
      inner.length + 1 ≤ (Tag.splitAtAttribute tokens).1.length ∧
      (Tag.splitAtAttribute tokens).1.length ≤ tokens.length ∧
      Span.Fits ⟨opening.stop, finish.start⟩ source ∧
      Span.of ⟨opening.stop, finish.start⟩ source = Token.textOf inner
  attributes : ∀ tags, Tag.list source = .ok tags → ∀ tag ∈ tags, ∀ entry ∈ tag.attributes,
    ∃ r : Span, r.Fits source ∧ entry.2 = r.of source
  between : ∀ tags, Tag.list source = .ok tags → ∀ t u, [t, u].Sublist tags →
    Span.Fits ⟨t.span.stop, u.span.start⟩ source
  pairs : ∀ tags pairs, Tag.list source = .ok tags → Tag.pairs tags = .ok pairs →
    ∀ pair ∈ pairs, pair.1 < pair.2 ∧ pair.2 < tags.length
  leaves : ∀ blocks, Block.leaves source = .ok blocks → ∀ block ∈ blocks, Block.CutFrom source block
  innermost : ∀ block, Block.innermost source = .ok (some block) → Block.CutFrom source block
  kept : ∀ blocks, Block.leaves source = .ok blocks →
    ∀ r ∈ Text.keptRanges source 0 (blocks.map Block.full), r.Fits source
  /-- Whatever the known components are, a pass puts its calls between what is kept. -/
  passes : ∀ (x y : Expander) (blocks : List Block) (next : Text),
    Block.leaves source = .ok blocks → x.pass source blocks = (y, .ok next) →
    next = Text.interleave
      ((Text.keptRanges source 0 (blocks.map Block.full)).map (Span.of · source))
      ((Expander.replacements (x.issued + 1) blocks).map Prod.snd)

/-- No cut of an expansion can fail. Every pass starts from a text, and in every text the ranges of
tokens, values, bodies and of what is kept fit. -/
theorem Text.ranges_fit (source : Text) : source.RangesFit where
  tokens t ht := ⟨Token.fits_of_mem_list ht, (Token.tiles_list source).text_eq t ht⟩
  values _ _ _ _ htokens h := Tag.exists_finish_of_splitAtLast htokens h
  attributes _ hl _ ht _ he := Tag.exists_range_of_mem_attributes hl ht he
  between _ hl _ _ hs := Tag.fits_between hl hs
  pairs tags pairs _ hp pair hm := by
    have hjoined := (Tag.pairs_eq_ok_iff_matching.1 hp).joined pair hm
    exact ⟨hjoined.1, hjoined.snd_lt⟩
  leaves blocks h block hb := by
    obtain ⟨tags, hl, rfl⟩ := Block.exists_of_leaves_eq_ok h
    exact (Block.madeOf_of_mem_leavesOfTags hb).cutFrom hl
  innermost block h := by
    obtain ⟨before, leaf, hl, hleaf⟩ := Block.exists_leafOf_of_innermost h
    exact (hleaf.madeOf.mono (List.sublist_append_right before leaf)).cutFrom hl
  kept blocks h := by
    obtain ⟨hspans, hordered⟩ := Block.ranges_of_leaves h
    exact Text.fits_of_mem_keptRanges (Span.fits_zero source) hspans hordered
  passes _ _ _ _ h hpass := Expander.eq_interleave_of_pass h hpass

end ComponentTags
