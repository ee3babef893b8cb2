import ComponentTags.Call
import ComponentTags.Proofs.Block.Balance
import ComponentTags.Proofs.Tag.Marked

/-!
# Forests

The tags of a text as a forest of blocks, with the plain text between them. The height of a block is
one more than that of the blocks inside it. A forest is translated by one recursion, in which every
block becomes a call around the translation of its body; calls are numbered by the height of their
block first and by its place in the source next.
-/

namespace ComponentTags

/-- The block of a start tag and its end tag around the given body. -/
def Block.enclosing (start finish : Tag) (body : Text) : Block where
  name := start.name
  attributes := start.attributes
  body := body
  isSelfClosing := false
  head := start.span
  full := ⟨start.span.start, finish.span.stop⟩
  line := start.line

/-- Blocks side by side, from the first one on. Each comes with the plain text after its tags. -/
inductive Forest where
  | nil
  | single (mark : Mark) (after : Text) (rest : Forest)
  | pair (start : Mark) (inside : Text) (body : Forest) (finish : Mark) (after : Text)
      (rest : Forest)
deriving DecidableEq, Repr

namespace Forest

/-! ## Blocks and their calls -/

def height : Forest → Nat
  | nil => 0
  | single _ _ rest => max 1 rest.height
  | pair _ _ body _ _ rest => max (body.height + 1) rest.height

/-- The blocks in the order in which they begin, each as its height and the tag that begins it. -/
def blocks : Forest → List (Nat × Tag)
  | nil => []
  | single mark _ rest => (1, mark.tag) :: rest.blocks
  | pair start _ body _ _ rest => (body.height + 1, start.tag) :: (body.blocks ++ rest.blocks)

/-- The number of a block, counted from one: the lower blocks come first, and blocks of one height
as they stand in the source. -/
def number (f : Forest) (height : Nat) (tag : Tag) : Nat :=
  1 + f.blocks.countP fun b =>
    b.1 < height || b.1 == height && b.2.span.start < tag.span.start

/-- The text with a call in place of every block. -/
def translate (number : Nat → Tag → Nat) : Forest → Text
  | nil => []
  | single mark after rest =>
    Call.ofBlock (number 1 mark.tag) (.ofSelfClosing mark.tag) ++
      (after ++ rest.translate number)
  | pair start inside body finish after rest =>
    Call.ofBlock (number (body.height + 1) start.tag)
        (.enclosing start.tag finish.tag (inside ++ body.translate number)) ++
      (after ++ rest.translate number)

/-- The text with a call in place of every block lower than `h`. -/
def replaceBelow (number : Nat → Tag → Nat) (h : Nat) : Forest → Text
  | nil => []
  | single mark after rest =>
    (if 1 < h then Call.ofBlock (number 1 mark.tag) (.ofSelfClosing mark.tag) else mark.text) ++
      (after ++ rest.replaceBelow number h)
  | pair start inside body finish after rest =>
    let body' := inside ++ body.replaceBelow number h
    (if body.height + 1 < h then
        Call.ofBlock (number (body.height + 1) start.tag) (.enclosing start.tag finish.tag body')
      else start.text ++ (body' ++ finish.text)) ++
      (after ++ rest.replaceBelow number h)

/-! ## The forest of a source -/

/-- A forest that is read from its end on: what has been read, where it begins, and the end tags
whose start tag is still to come, each with what follows it. -/
structure Partial where
  forest : Forest
  start : Nat
  ends : List (Mark × Text × Forest)

/-- Reads the tag before what has been read. -/
def Partial.prepend (source : Text) (tag : Tag) (p : Partial) : Option Partial :=
  let mark : Mark := ⟨tag, tag.span.of source⟩
  let after := Text.slice tag.span.stop p.start source
  match tag.kind, p.ends with
  | .selfClosing, ends => some ⟨.single mark after p.forest, tag.span.start, ends⟩
  | .closing, ends => some ⟨.nil, tag.span.start, (mark, after, p.forest) :: ends⟩
  | .opening, (finish, text, rest) :: ends =>
    if tag.sameName finish.tag then
      some ⟨.pair mark after p.forest finish text rest, tag.span.start, ends⟩
    else none
  | .opening, [] => none

/-- The text before the first tag of a source and the forest of its tags, if all of them are
paired. -/
def ofTags? (source : Text) (tags : List Tag) : Option (Text × Forest) := do
  let p ← tags.foldrM (Partial.prepend source) ⟨.nil, Text.byteSize source, []⟩
  if p.ends.isEmpty then some (Text.slice 0 p.start source, p.forest) else none

/-! ## Forests as marked text -/

def pieces : Forest → Mark.Sequence
  | nil => []
  | single mark after rest => (mark, after) :: rest.pieces
  | pair start inside body finish after rest =>
    (start, inside) :: (body.pieces ++ (finish, after) :: rest.pieces)

def text (f : Forest) : Text :=
  Mark.textOf f.pieces

def tags (f : Forest) : List Tag :=
  f.pieces.map (·.1.tag)

@[simp] theorem text_nil : text nil = [] := rfl

@[simp] theorem text_single (mark : Mark) (after : Text) (rest : Forest) :
    (single mark after rest).text = mark.text ++ (after ++ rest.text) :=
  Mark.textOf_cons ..

@[simp] theorem text_pair (start : Mark) (inside : Text) (body : Forest) (finish : Mark)
    (after : Text) (rest : Forest) :
    (pair start inside body finish after rest).text =
      start.text ++ (inside ++ (body.text ++ (finish.text ++ (after ++ rest.text)))) := by
  simp [text, pieces]

@[simp] theorem tags_nil : tags nil = [] := rfl

@[simp] theorem tags_single (mark : Mark) (after : Text) (rest : Forest) :
    (single mark after rest).tags = mark.tag :: rest.tags := rfl

@[simp] theorem tags_pair (start : Mark) (inside : Text) (body : Forest) (finish : Mark)
    (after : Text) (rest : Forest) :
    (pair start inside body finish after rest).tags =
      start.tag :: (body.tags ++ finish.tag :: rest.tags) := by
  simp [tags, pieces]

/-- The marks are of the kinds that their places ask for, and tags of a pair agree in name. -/
def Matched : Forest → Prop
  | nil => True
  | single mark _ rest => mark.tag.kind = .selfClosing ∧ rest.Matched
  | pair start _ body finish _ rest =>
    start.tag.kind = .opening ∧ finish.tag.kind = .closing ∧ start.tag.sameName finish.tag ∧
      body.Matched ∧ rest.Matched

/-- Marked text is a forest if its tags are balanced. -/
theorem exists_of_balanced {tags : List Tag} (h : Balanced tags) {pieces : Mark.Sequence}
    (hp : pieces.map (·.1.tag) = tags) : ∃ f : Forest, f.pieces = pieces ∧ f.Matched := by
  induction h generalizing pieces with
  | nil => exact ⟨nil, (List.map_eq_nil_iff.1 hp).symm, trivial⟩
  | single hk _ ih =>
    obtain ⟨⟨mark, after⟩, rest, rfl, rfl, hrest⟩ := List.map_eq_cons_iff.1 hp
    obtain ⟨f, rfl, hf⟩ := ih hrest
    exact ⟨single mark after f, rfl, hk, hf⟩
  | pair hs hf hn _ _ ihb ihr =>
    obtain ⟨⟨start, inside⟩, inner, rfl, rfl, hinner⟩ := List.map_eq_cons_iff.1 hp
    obtain ⟨body, outer, rfl, hbody, houter⟩ := List.map_eq_append_iff.1 hinner
    obtain ⟨⟨finish, after⟩, rest, rfl, rfl, hrest⟩ := List.map_eq_cons_iff.1 houter
    obtain ⟨b, rfl, hb⟩ := ihb hbody
    obtain ⟨r, rfl, hr⟩ := ihr hrest
    exact ⟨.pair start inside b finish after r, rfl, hs, hf, hn, hb, hr⟩

/-- Wherever the marks stand, their tags are balanced. -/
theorem balanced_placedFrom {f : Forest} (h : f.Matched) (p : Place) :
    Balanced (Mark.placedFrom p f.pieces) := by
  induction f generalizing p with
  | nil => exact .nil
  | single mark after rest ih => exact .single h.1 (ih h.2 _)
  | pair start inside body finish after rest ihb ihr =>
    obtain ⟨hs, hf, hn, hb, hr⟩ := h
    rw [pieces, Mark.placedFrom, Mark.placedFrom_append]
    exact .pair hs hf hn (ihb hb _) (ihr hr _)

/-- The positions of the start and the end tag of each pair, counted from `i` on, in the order of
the end tags. -/
def pairsFrom (i : Nat) : Forest → List (Nat × Nat)
  | nil => []
  | single _ _ rest => rest.pairsFrom (i + 1)
  | pair _ _ body _ _ rest =>
    let j := i + (body.tags.length + 1)
    body.pairsFrom (i + 1) ++ (i, j) :: rest.pairsFrom (j + 1)

theorem nested_tags {f : Forest} (h : f.Matched) {before : List Tag} {stack : OpenTags}
    {pairs : List (Nat × Nat)} (hn : Nested before stack pairs) :
    Nested (before ++ f.tags) stack (pairs ++ f.pairsFrom before.length) := by
  induction f generalizing before stack pairs with
  | nil => simpa [pairsFrom] using hn
  | single mark after rest ih =>
    have hrest := ih h.2 (hn.selfClosing h.1)
    rw [tags_single, List.append_cons]
    simpa [pairsFrom] using hrest
  | pair start inside body finish after rest ihb ihr =>
    obtain ⟨hs, hf, hname, hb, hr⟩ := h
    have hbody := ihb hb (hn.opening hs)
    have hrest := ihr hr (hbody.closing hf hname)
    simpa [pairsFrom, Nat.add_assoc] using hrest

/-- Tags of a forest are paired as the forest says. -/
theorem pairs_tags {f : Forest} (h : f.Matched) : Tag.pairs f.tags = .ok (f.pairsFrom 0) :=
  Tag.pairs_eq_ok_iff.2 (nested_tags h .nil)

/-! ## Reading the forest of a source -/

theorem prepend_single {source : Text} {tag : Tag} (hk : tag.kind = .selfClosing) (p : Partial) :
    Partial.prepend source tag p =
      some ⟨.single ⟨tag, tag.span.of source⟩ (Text.slice tag.span.stop p.start source) p.forest,
        tag.span.start, p.ends⟩ := by
  simp [Partial.prepend, hk]

theorem prepend_finish {source : Text} {tag : Tag} (hk : tag.kind = .closing) (p : Partial) :
    Partial.prepend source tag p =
      some ⟨.nil, tag.span.start,
        (⟨tag, tag.span.of source⟩, Text.slice tag.span.stop p.start source, p.forest) ::
          p.ends⟩ := by
  simp [Partial.prepend, hk]

theorem prepend_start {source after : Text} {tag : Tag} {body rest : Forest} {finish : Mark}
    {ends : List (Mark × Text × Forest)} (hk : tag.kind = .opening)
    (hn : tag.sameName finish.tag) (start : Nat) :
    Partial.prepend source tag ⟨body, start, (finish, after, rest) :: ends⟩ =
      some ⟨.pair ⟨tag, tag.span.of source⟩ (Text.slice tag.span.stop start source) body finish
        after rest, tag.span.start, ends⟩ := by
  simp [Partial.prepend, hk, hn]

/-- A mark is read off the source where its tag lies. -/
theorem mark_eq_of_placed {source rest : Text} {mark : Mark} {p : Place}
    (h : p.Begins (mark.text ++ rest) source) (hmark : mark.placed p = mark.tag) :
    (⟨mark.tag, mark.tag.span.of source⟩ : Mark) = mark ∧
      mark.tag.span = ⟨p.offset, (p.past mark.text).offset⟩ := by
  have hspan : mark.tag.span = ⟨p.offset, (p.past mark.text).offset⟩ := by
    rw [← hmark]
    rfl
  refine ⟨?_, hspan⟩
  rw [hspan, Span.of, h.slice]

theorem foldrM_prepend {source after : Text} {f : Forest} {p : Place} (h : f.Matched)
    (hp : p.Begins (f.text ++ after) source) (htags : Mark.placedFrom p f.pieces = f.tags)
    (ends : List (Mark × Text × Forest)) :
    f.tags.foldrM (Partial.prepend source) ⟨.nil, (p.past f.text).offset, ends⟩ =
      some ⟨f, p.offset, ends⟩ := by
  induction f generalizing after p ends with
  | nil => rfl
  | single mark gap rest ih =>
    simp only [text_single, List.append_assoc] at hp
    obtain ⟨hmark, hrest⟩ := List.cons.inj htags
    obtain ⟨heq, hspan⟩ := mark_eq_of_placed hp hmark
    have hread := ih h.2 hp.past.past hrest ends
    rw [text_single, tags_single, List.foldrM_cons, Place.past_append, Place.past_append, hread]
    simp only [Option.bind_eq_bind, Option.bind_some, prepend_single h.1, heq]
    rw [hspan, hp.past.slice]
  | pair start inside body finish gap rest ihb ihr =>
    obtain ⟨hs, hf, hn, hb, hr⟩ := h
    simp only [text_pair, List.append_assoc] at hp
    obtain ⟨hstart, hinner⟩ := List.cons.inj htags
    rw [Mark.placedFrom_append, List.map_append] at hinner
    obtain ⟨hbody, houter⟩ := List.append_inj hinner (by simp [Mark.length_placedFrom])
    obtain ⟨hfinish, hrest⟩ := List.cons.inj houter
    -- the end tag is read after what follows it, and the start tag after the body
    obtain ⟨hfeq, hfspan⟩ := mark_eq_of_placed hp.past.past.past hfinish
    obtain ⟨hseq, hsspan⟩ := mark_eq_of_placed hp hstart
    have hreadr := ihr hr hp.past.past.past.past.past hrest ends
    have hreadb := ihb hb hp.past.past hbody ((finish, gap, rest) :: ends)
    rw [text_pair, tags_pair, List.foldrM_cons, List.foldrM_append, List.foldrM_cons]
    simp only [Place.past_append, hreadr, Option.bind_eq_bind, Option.bind_some,
      prepend_finish hf, hfeq]
    rw [hfspan, hp.past.past.past.past.slice]
    simp only [hreadb, Option.bind_some, prepend_start hs hn, hseq]
    rw [hsspan, hp.past.slice]

/-- The forest of marked text is read from its tags. -/
theorem ofTags?_eq {lead : Text} {f : Forest} (h : f.Matched)
    (htags : Mark.placedFrom (Place.first.past lead) f.pieces = f.tags) :
    ofTags? (lead ++ f.text) f.tags = some (lead, f) := by
  have hfirst := Place.begins_first (lead ++ f.text)
  have hbegins : (Place.first.past lead).Begins (f.text ++ []) (lead ++ f.text) := by
    simpa using hfirst.past
  have hread := foldrM_prepend h hbegins htags []
  have hend : Text.byteSize (lead ++ f.text) = ((Place.first.past lead).past f.text).offset := by
    simp [Place.first]
  rw [ofTags?, hend, hread]
  have hlead : Text.slice 0 (Place.first.past lead).offset (lead ++ f.text) = lead := hfirst.slice
  simp only [Option.bind_eq_bind, Option.bind_some, List.isEmpty_nil, if_true, hlead]

end Forest

end ComponentTags
