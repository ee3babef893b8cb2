import ComponentTags.Block.Leaf
import ComponentTags.Call.Angles
import ComponentTags.Registry

/-!
# Passes

A pass replaces all leaf blocks of a text by calls, at once. Calls are numbered in the order in
which they are made. Every pass that replaces a block leaves fewer `<` than there were, at least one
fewer for each block.
-/

namespace ComponentTags

/-- The text after putting each replacement in the place of its span. Spans come in order, `cursor`
is the end of the one before. -/
def Text.splice (source : Text) (cursor : Nat) : List (Span × Text) → Text
  | [] => Text.dropBytes cursor source
  | (span, replacement) :: rest =>
    Text.slice cursor span.start source ++ replacement ++ Text.splice source span.stop rest

structure Expander where
  /-- The known components. Without a registry every component is known. -/
  registry : Option Registry
  /-- The number of calls made so far. -/
  issued : Nat := 0

namespace Expander

def knows (x : Expander) (name : Text) : Bool :=
  x.registry.all (·.contains name)

/-- The calls for blocks, of which the first gets the given number. -/
def replacements (number : Nat) (blocks : List Block) : List (Span × Text) :=
  (blocks.zipIdx number).map fun (block, number) => (block.full, Call.ofBlock number block)

/-- Replaces the leaf blocks of a source. A block of an unknown component ends the pass, and only
the blocks before it have been numbered. -/
def pass (x : Expander) (source : Text) (blocks : List Block) : Expander × Except Error Text :=
  match blocks.find? (!x.knows ·.name) with
  | some block =>
    ({ x with issued := x.issued + (blocks.takeWhile (x.knows ·.name)).length },
      .error (.unknownComponent block.name block.line))
  | none =>
    ({ x with issued := x.issued + blocks.length },
      .ok (Text.splice source 0 (replacements (x.issued + 1) blocks)))

end Expander

/-! ## The measure of a pass -/

/-- A call holds fewer `<` than the tag that begins its block and the body together. -/
theorem Call.count_ofBlock_lt (block : Block) {tag : Tag} {head : Text} (h : tag.KeptFrom head)
    (hname : block.name = tag.name) (hattributes : block.attributes = tag.attributes)
    (number : Nat) :
    (ofBlock number block).count '<' < head.count '<' + block.body.count '<' := by
  have hle := count_ofBlock_le number block (hname ▸ h.name_chars) (hattributes ▸ h.key_chars)
  have hlt := h.angles_lt
  rw [hattributes] at hle
  omega

/-- The body of a block is what stands between its tags. -/
theorem Block.body_ofPair (done head : Text) {source inside rest : Text} {tag finish : Tag}
    (hs : source = done ++ (head ++ (inside ++ rest)))
    (hstop : tag.span.stop = Text.byteSize (done ++ head))
    (hstart : finish.span.start = Text.byteSize (done ++ head) + Text.byteSize inside) :
    (ofPair source tag finish).body = inside := by
  have hslice := Text.slice_append (done ++ head) inside rest
  simpa [ofPair, hs, hstop, hstart] using hslice

namespace Expander

theorem count_splice_cons_le (source done kept covered rest : Text) (number : Nat)
    (block : Block) (blocks : List Block) (hs : source = done ++ (kept ++ (covered ++ rest)))
    (hfull : block.full =
      ⟨Text.byteSize (done ++ kept), Text.byteSize (done ++ kept ++ covered)⟩)
    (hcall : (Call.ofBlock number block).count '<' < covered.count '<')
    (hrest : (Text.splice source (Text.byteSize (done ++ kept ++ covered))
        (replacements (number + 1) blocks)).count '<' + blocks.length ≤ rest.count '<') :
    (Text.splice source (Text.byteSize done) (replacements number (block :: blocks))).count '<' +
        (block :: blocks).length ≤
      kept.count '<' + covered.count '<' + rest.count '<' := by
  have hkept : Text.slice (Text.byteSize done) block.full.start source = kept := by
    have := Text.slice_append done kept (covered ++ rest)
    simpa [hs, hfull] using this
  have hsplice : Text.splice source (Text.byteSize done) (replacements number (block :: blocks)) =
      Text.slice (Text.byteSize done) block.full.start source ++ Call.ofBlock number block ++
        Text.splice source block.full.stop (replacements (number + 1) blocks) := rfl
  rw [hsplice, hkept, hfull]
  simp only [List.count_append, List.length_cons]
  omega

/-- Here `done` is cut off already and `before` is the text between there and what is left. -/
theorem count_splice_le (source done before s : Text) {line : Nat} (number : Nat)
    {tags : List Tag} (h : Tag.Placed (Text.byteSize (done ++ before)) line s tags)
    (hs : source = done ++ (before ++ s)) :
    (Text.splice source (Text.byteSize done)
        (replacements number (Block.leavesOfTags source tags))).count '<' +
      (Block.leavesOfTags source tags).length ≤ before.count '<' + s.count '<' := by
  generalize hstart : Text.byteSize (done ++ before) = start at h
  cases h with
  | nil =>
    have : Text.dropBytes (Text.byteSize done) source = before ++ s := by
      rw [hs, Text.dropBytes_append]
    simp [Block.leavesOfTags, replacements, Text.splice, this]
  | @cons _ _ gap head rest tag tags hspan _ hkept htags =>
    simp only [Text.byteSize_append] at hstart
    cases hl : Block.leaf? source tag tags with
    | none =>
      have := count_splice_le source done (before ++ gap ++ head) rest number
        (by simpa [← hstart, Nat.add_assoc] using htags) (by simp [hs])
      simp only [Block.leavesOfTags_skip hl, List.count_append] at this ⊢
      omega
    | some block =>
      cases hk : tag.kind with
      | closing => simp [Block.leaf?, hk] at hl
      | selfClosing =>
        have hcall := Call.count_ofBlock_lt (.ofSelfClosing tag) hkept rfl rfl number
        have hrest := count_splice_le source (done ++ (before ++ gap) ++ head) [] rest (number + 1)
          (by simpa [← hstart, Nat.add_assoc] using htags) (by simp [hs])
        have := count_splice_cons_le source done (before ++ gap) head rest number
          (.ofSelfClosing tag) (Block.leavesOfTags source tags) (by simp [hs])
          (by simp [Block.ofSelfClosing, hspan, ← hstart, Nat.add_assoc])
          (by simpa [Block.ofSelfClosing] using hcall)
          (by simpa using hrest)
        rw [Block.leavesOfTags_selfClosing source tags hk]
        simp only [List.count_append] at this ⊢
        omega
      | opening =>
        cases htags with
        | nil => simp [Block.leaf?, hk] at hl
        | @cons _ _ gap' head' rest' finish tags' hspan' _ _ htags' =>
          simp only [Block.leaf?, hk, Tag.isClosing, Option.ite_none_right_eq_some,
            beq_iff_eq] at hl
          have hbody : (Block.ofPair source tag finish).body = gap' :=
            Block.body_ofPair (done ++ (before ++ gap)) head (by simpa using hs)
              (by simp [hspan, ← hstart, Nat.add_assoc])
              (by simp [hspan', ← hstart, Nat.add_assoc])
          have hcall := Call.count_ofBlock_lt (.ofPair source tag finish) hkept rfl rfl number
          have hrest := count_splice_le source
            (done ++ (before ++ gap) ++ (head ++ (gap' ++ head'))) [] rest' (number + 1)
            (by simpa [← hstart, Nat.add_assoc] using htags') (by simp [hs])
          have := count_splice_cons_le source done (before ++ gap) (head ++ (gap' ++ head')) rest'
            number (.ofPair source tag finish) (Block.leavesOfTags source tags') (by simp [hs])
            (by simp [Block.ofPair, hspan, hspan', ← hstart, Nat.add_assoc])
            (by
              rw [hbody] at hcall
              simp only [List.count_append]
              omega)
            (by simpa using hrest)
          rw [Block.leavesOfTags_pair source tags' hk hl.1]
          simp only [List.count_append] at this ⊢
          omega
termination_by tags.length

/-- A pass lowers the number of `<` by the number of blocks at least. -/
theorem count_pass_le {x x' : Expander} {source next : Text} {blocks : List Block}
    (hl : Block.leaves source = .ok blocks) (hp : x.pass source blocks = (x', .ok next)) :
    next.count '<' + blocks.length ≤ source.count '<' := by
  obtain ⟨tags, ht, rfl⟩ := Block.exists_of_leaves_eq_ok hl
  have := count_splice_le source [] [] source (x.issued + 1) (Tag.placed_of_list ht) rfl
  unfold pass at hp
  split at hp
  · simp at hp
  · cases hp
    simpa using this

end Expander

end ComponentTags
