import ComponentTags.Block
import ComponentTags.Block.Pairing
import ComponentTags.Tag.List

/-!
# Leaf blocks

The blocks that enclose no other tag. They never overlap, so all of them can be replaced at once.
`innermost` finds a single one without pairing the whole source.
-/

namespace ComponentTags

namespace Block

/-- The leaf block that begins with `tag`, which is followed by the tags `rest`. When all tags are
paired, a start tag directly before an end tag is closed by it. -/
def leaf? (source : Text) (tag : Tag) (rest : List Tag) : Option Block :=
  match tag.kind, rest with
  | .selfClosing, _ => some (ofSelfClosing tag)
  | .opening, finish :: _ => if finish.isClosing then some (ofPair source tag finish) else none
  | _, _ => none

def leavesOfTags (source : Text) : List Tag → List Block
  | [] => []
  | tag :: rest => (leaf? source tag rest).toList ++ leavesOfTags source rest

theorem leavesOfTags_selfClosing (source : Text) {tag : Tag} (rest : List Tag)
    (h : tag.kind = .selfClosing) :
    leavesOfTags source (tag :: rest) = ofSelfClosing tag :: leavesOfTags source rest := by
  simp [leavesOfTags, leaf?, h]

theorem leavesOfTags_pair (source : Text) {tag finish : Tag} (rest : List Tag)
    (h : tag.kind = .opening) (hf : finish.kind = .closing) :
    leavesOfTags source (tag :: finish :: rest) =
      ofPair source tag finish :: leavesOfTags source rest := by
  simp [leavesOfTags, leaf?, h, hf, Tag.isClosing]

theorem leavesOfTags_skip {source : Text} {tag : Tag} {rest : List Tag}
    (h : leaf? source tag rest = none) :
    leavesOfTags source (tag :: rest) = leavesOfTags source rest := by
  simp [leavesOfTags, h]

/-- The leaf blocks of a source in source order. -/
def leaves (source : Text) : Except Error (List Block) := do
  let tags ← Tag.list source
  let _ ← Tag.pairs tags
  return leavesOfTags source tags

theorem exists_of_leaves_eq_ok {source : Text} {blocks : List Block}
    (h : leaves source = .ok blocks) :
    ∃ tags, Tag.list source = .ok tags ∧ blocks = leavesOfTags source tags := by
  cases ht : Tag.list source with
  | error e => simp [leaves, ht, bind, Except.bind] at h
  | ok tags =>
    cases hp : Tag.pairs tags with
    | error e => simp [leaves, ht, hp, bind, Except.bind] at h
    | ok pairs =>
      simp only [leaves, ht, hp, bind, Except.bind, pure, Except.pure, Except.ok.injEq] at h
      exact ⟨tags, rfl, h.symm⟩

/-- The block to replace next when blocks are replaced one by one: the first tag other than an end
tag if it is self-closing, otherwise the last one together with the end tag after it. -/
def innermost (source : Text) : Except Error (Option Block) := do
  let tags ← Tag.list source
  match tags.find? (!·.isClosing), tags.reverse.find? (!·.isClosing) with
  | some first, some last =>
    if first.isSelfClosing then return some (ofSelfClosing first)
    else if last.isSelfClosing then return some (ofSelfClosing last)
    else
      match (tags.reverse.takeWhile Tag.isClosing).getLast? with
      | none => throw (.missingClosingTag last.name last.line)
      | some finish =>
        if finish.sameName last then return some (ofPair source last finish)
        else throw (.mismatchedClosingTag last.name finish.name finish.line)
  | _, _ =>
    match tags with
    | [] => return none
    | finish :: _ => throw (.unmatchedClosingTag finish.name finish.line)

end Block

end ComponentTags
