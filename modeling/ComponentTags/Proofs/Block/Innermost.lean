import ComponentTags.Expander.Pass

/-!
# The innermost block

The block to replace next when blocks are replaced one by one has no tag inside. It is looked for
without pairing the tags: there is none if there are no tags, and the search fails only where the
last start tag is not closed by what follows it or where an end tag comes first. Replacing the block
lowers the number of `<`, whatever the source.
-/

namespace ComponentTags

theorem Tag.sameName_comm (s t : Tag) : s.sameName t = t.sameName s := by
  rw [sameName, sameName, Text.eqIgnoringCase, Text.eqIgnoringCase, Bool.beq_comm]

namespace Block

/-- Tags of which the first one, or the first two, make up the block. -/
inductive LeafOf (source : Text) : List Tag → Block → Prop where
  | single {tag : Tag} (rest : List Tag) :
      tag.kind = .selfClosing → LeafOf source (tag :: rest) (.ofSelfClosing tag)
  | pair {start finish : Tag} (rest : List Tag) :
      start.kind = .opening → finish.kind = .closing → start.sameName finish →
      LeafOf source (start :: finish :: rest) (.ofPair source start finish)

/-- Tags among which no innermost block is found. -/
inductive Stuck : List Tag → Prop where
  | unmatched {finish : Tag} (rest : List Tag) : finish.kind = .closing → Stuck (finish :: rest)
  | missing (before : List Tag) {start : Tag} : start.kind = .opening → Stuck (before ++ [start])
  | mismatched (before : List Tag) {start finish : Tag} (rest : List Tag) :
      start.kind = .opening → finish.kind = .closing → start.sameName finish = false →
      Stuck (before ++ start :: finish :: rest)

/-- The last tag that is no end tag, and the end tags after it. -/
theorem exists_last_head {tags : List Tag} {first : Tag}
    (h : tags.find? (!·.isClosing) = some first) :
    ∃ before last closers, tags = before ++ last :: closers ∧ last.kind ≠ .closing ∧
      (∀ tag ∈ closers, tag.kind = .closing) ∧
      tags.reverse.find? (!·.isClosing) = some last ∧
      (tags.reverse.takeWhile Tag.isClosing).getLast? = closers.head? := by
  have hfirst := List.find?_some h
  obtain ⟨last, hlast⟩ : ∃ last, tags.reverse.find? (!·.isClosing) = some last := by
    rw [← Option.isSome_iff_exists, List.find?_isSome]
    exact ⟨first, List.mem_reverse.2 (List.mem_of_find?_eq_some h), hfirst⟩
  obtain ⟨hopen, closers, before, hsplit, hclosers⟩ := List.find?_eq_some_iff_append.1 hlast
  simp only [Bool.not_eq_true', Bool.not_not] at hopen hclosers
  refine ⟨before.reverse, last, closers.reverse, ?_, ?_, ?_, hlast, ?_⟩
  · simpa using congrArg List.reverse hsplit
  · simpa [Tag.isClosing] using hopen
  · intro tag hm
    simpa [Tag.isClosing] using hclosers tag (List.mem_reverse.1 hm)
  · rw [hsplit, List.takeWhile_append_of_pos hclosers, List.takeWhile_cons_of_neg (by simp [hopen]),
      List.append_nil, List.head?_reverse]

/-- What is found among the tags of a source. -/
theorem innermost_cases {source : Text} {tags : List Tag} (hl : Tag.list source = .ok tags) :
    (tags = [] ∧ innermost source = .ok none) ∨
    (∃ before at' block, tags = before ++ at' ∧ LeafOf source at' block ∧
      innermost source = .ok (some block)) ∨
    (Stuck tags ∧ ∃ e, innermost source = .error e) := by
  simp only [innermost, hl, bind, Except.bind, pure, Except.pure, throw, throwThe,
    MonadExceptOf.throw]
  cases hfind : tags.find? (!·.isClosing) with
  | none =>
    have hclosing : ∀ tag ∈ tags, tag.kind = .closing := by
      simpa [Tag.isClosing] using List.find?_eq_none.1 hfind
    cases tags with
    | nil => exact .inl ⟨rfl, rfl⟩
    | cons finish rest =>
      exact .inr (.inr ⟨.unmatched rest (hclosing _ List.mem_cons_self), _, rfl⟩)
  | some first =>
    obtain ⟨before, last, closers, rfl, hopen, hclosers, hlast, hfinish⟩ := exists_last_head hfind
    simp only [hlast, hfinish]
    by_cases hfirst : first.isSelfClosing
    · obtain ⟨-, before', rest, hsplit, -⟩ := List.find?_eq_some_iff_append.1 hfind
      have hkind : first.kind = .selfClosing := by simpa [Tag.isSelfClosing] using hfirst
      exact .inr (.inl ⟨before', _, _, hsplit, .single rest hkind, by simp [hfirst]⟩)
    by_cases hsingle : last.isSelfClosing
    · have hkind : last.kind = .selfClosing := by simpa [Tag.isSelfClosing] using hsingle
      exact .inr (.inl ⟨before, _, _, rfl, .single closers hkind, by simp [hfirst, hsingle]⟩)
    have hstart : last.kind = .opening := by
      cases hk : last.kind with
      | opening => rfl
      | closing => exact absurd hk hopen
      | selfClosing => simp [Tag.isSelfClosing, hk] at hsingle
    cases closers with
    | nil =>
      refine .inr (.inr ⟨.missing before hstart, .missingClosingTag last.name last.line, ?_⟩)
      simp [hfirst, hsingle]
    | cons finish rest =>
      have hclosing := hclosers finish List.mem_cons_self
      by_cases hname : last.sameName finish
      · refine .inr (.inl ⟨before, _, _, rfl, .pair rest hstart hclosing hname, ?_⟩)
        simp [hfirst, hsingle, Tag.sameName_comm finish, hname]
      · rw [Bool.not_eq_true] at hname
        refine .inr (.inr ⟨.mismatched before rest hstart hclosing hname,
          .mismatchedClosingTag last.name finish.name finish.line, ?_⟩)
        simp [hfirst, hsingle, Tag.sameName_comm finish, hname]

theorem list_eq_nil_of_innermost {source : Text} (h : innermost source = .ok none) :
    Tag.list source = .ok [] := by
  cases hl : Tag.list source with
  | error e => simp [innermost, hl, bind, Except.bind] at h
  | ok tags =>
    rcases innermost_cases hl with ⟨rfl, -⟩ | ⟨before, leaf, found, -, -, hfound⟩ | ⟨-, e, herror⟩
    · rfl
    · exact absurd (hfound.symm.trans h) nofun
    · exact absurd (herror.symm.trans h) nofun

theorem exists_leafOf_of_innermost {source : Text} {block : Block}
    (h : innermost source = .ok (some block)) :
    ∃ before leaf, Tag.list source = .ok (before ++ leaf) ∧ LeafOf source leaf block := by
  cases hl : Tag.list source with
  | error e => simp [innermost, hl, bind, Except.bind] at h
  | ok tags =>
    rcases innermost_cases hl with ⟨-, hnone⟩ | ⟨before, leaf, found, rfl, hleaf, hfound⟩ |
      ⟨-, e, herror⟩
    · exact absurd (hnone.symm.trans h) nofun
    · cases hfound.symm.trans h
      exact ⟨before, leaf, rfl, hleaf⟩
    · exact absurd (herror.symm.trans h) nofun

theorem stuck_of_innermost {source : Text} {tags : List Tag} {e : Error}
    (hl : Tag.list source = .ok tags) (h : innermost source = .error e) : Stuck tags := by
  rcases innermost_cases hl with ⟨-, hnone⟩ | ⟨before, leaf, found, -, -, hfound⟩ | ⟨hstuck, -⟩
  · exact absurd (hnone.symm.trans h) nofun
  · exact absurd (hfound.symm.trans h) nofun
  · exact hstuck

/-- The text that a leaf block covers, which holds more `<` than its call. -/
theorem exists_covered {source done s : Text} {line : Nat} {tags : List Tag} {block : Block}
    (hs : source = done ++ s) (h : Tag.Placed (Text.byteSize done) line s tags)
    (hb : LeafOf source tags block) :
    ∃ kept covered rest, s = kept ++ (covered ++ rest) ∧
      block.full = ⟨Text.byteSize (done ++ kept),
        Text.byteSize (done ++ kept) + Text.byteSize covered⟩ ∧
      ∀ number, (Call.ofBlock number block).count '<' < covered.count '<' := by
  generalize hstart : Text.byteSize done = start at h
  cases hb with
  | @single tag rest hk =>
    cases h with
    | @cons _ _ gap head after _ _ hspan _ hkept _ =>
      refine ⟨gap, head, after, by simp, ?_, fun number => ?_⟩
      · simpa [ofSelfClosing, ← hstart] using hspan
      · have hcall := Call.count_ofBlock_lt (ofSelfClosing tag) hkept rfl rfl number
        simpa [ofSelfClosing] using hcall
  | @pair start' finish rest hk hf hn =>
    cases h with
    | @cons _ _ gap head after _ _ hspan _ hkept hrest =>
      cases hrest with
      | @cons _ _ inside head' after' _ _ hspan' _ _ _ =>
        refine ⟨gap, head ++ (inside ++ head'), after', by simp, ?_, fun number => ?_⟩
        · simp [ofPair, hspan, hspan', ← hstart, Nat.add_assoc]
        · have hbody : (ofPair source start' finish).body = inside :=
            body_ofPair (done ++ gap) head (by simpa using hs)
              (by simp [hspan, ← hstart, Nat.add_assoc])
              (by simp [hspan', ← hstart, Nat.add_assoc])
          have hcall := Call.count_ofBlock_lt (ofPair source start' finish) hkept rfl rfl number
          rw [hbody] at hcall
          simp only [List.count_append]
          omega

end Block

namespace Tag

/-- Tags of a text from some tag on lie in what is left of the text. -/
theorem Placed.exists_after {start line : Nat} {s : Text} {before tags : List Tag}
    (h : Placed start line s (before ++ tags)) :
    ∃ done rest line', s = done ++ rest ∧ Placed (start + Text.byteSize done) line' rest tags := by
  induction before generalizing start line s with
  | nil => exact ⟨[], s, line, rfl, h⟩
  | cons tag before ih =>
    cases h with
    | @cons _ _ gap head rest _ _ _ _ _ hrest =>
      obtain ⟨done, rest, line', rfl, hplaced⟩ := ih hrest
      refine ⟨gap ++ (head ++ done), rest, line', by simp, ?_⟩
      simpa [Nat.add_assoc] using hplaced

end Tag

/-- A text with one replacement. -/
theorem Text.splice_one (done covered rest replacement : Text) :
    splice (done ++ (covered ++ rest)) 0
        [(⟨byteSize done, byteSize done + byteSize covered⟩, replacement)] =
      done ++ (replacement ++ rest) := by
  have hkept : slice 0 (byteSize done) (done ++ (covered ++ rest)) = done := by
    simpa using slice_append [] done (covered ++ rest)
  have hrest : dropBytes (byteSize done + byteSize covered) (done ++ (covered ++ rest)) = rest := by
    rw [← byteSize_append, ← List.append_assoc, dropBytes_append]
  rw [splice, splice, hkept, hrest, List.append_assoc]

namespace Expander

/-- The text in which a single block has become a call. -/
def replaceOne (number : Nat) (source : Text) (block : Block) : Text :=
  Text.splice source 0 [(block.full, Call.ofBlock number block)]

theorem replaceOne_eq {done covered : Text} {block : Block}
    (h : block.full = ⟨Text.byteSize done, Text.byteSize done + Text.byteSize covered⟩)
    (number : Nat) (rest : Text) :
    replaceOne number (done ++ (covered ++ rest)) block =
      done ++ (Call.ofBlock number block ++ rest) := by
  rw [replaceOne, h, Text.splice_one]

theorem count_replaceOne_lt {source : Text} {block : Block}
    (h : Block.innermost source = .ok (some block)) (number : Nat) :
    (replaceOne number source block).count '<' < source.count '<' := by
  obtain ⟨before, leaf, hl, hleaf⟩ := Block.exists_leafOf_of_innermost h
  obtain ⟨done, s, line, hs, hplaced⟩ := (Tag.placed_of_list hl).exists_after
  rw [Nat.zero_add] at hplaced
  obtain ⟨kept, covered, rest, rfl, hfull, hcall⟩ := Block.exists_covered hs hplaced hleaf
  have hsource : source = (done ++ kept) ++ (covered ++ rest) := by simp [hs]
  rw [hsource, replaceOne_eq hfull]
  have hlt := hcall number
  simp only [List.count_append]
  omega

end Expander

end ComponentTags
