import Mathlib
import ComponentTags.Proofs.Expansion.Stages

/-!
# Opacity of values

A value is copied into the call of its block, and the next pass reads the call again. If no `<` of a
value stands before the name of a tag, the passes see nothing in the values and the source is
translated as its forest says. If one does, it stands in the translation before the same name, so
that the translation still has a tag and cannot be what a successful expansion ends with.
-/

namespace ComponentTags

open Token (Lacks opensNamed opensSpaced)

/-! ## Values of marks -/

namespace Mark

/-- In marked text that opens every `<` before white space, such a `<` stands nowhere in a tag but
at its beginning. -/
theorem lacks_opensSpaced {p : Place} {lead : Text} {pieces : Sequence}
    (h : Tag.SpacedOpen p (lead ++ textOf pieces) (placedFrom (p.past lead) pieces))
    (hbegins : ∀ piece ∈ pieces, ∃ s, piece.1.text = '<' :: s) :
    ∀ piece ∈ pieces, Lacks opensSpaced piece.1.text.tail := by
  induction pieces generalizing p lead with
  | nil => simp
  | cons piece pieces ih =>
    obtain ⟨mark, after⟩ := piece
    obtain ⟨⟨s, hs⟩, hrest⟩ := List.forall_mem_cons.1 hbegins
    have hs : mark.text = '<' :: s := hs
    rw [textOf_cons] at h
    refine List.forall_mem_cons.2 ⟨Token.lacks_iff.2 fun before rest hsplit => ?_, ?_⟩
    · -- the tag that such a `<` opens would begin inside the mark
      rw [hs, List.tail_cons] at hsplit
      cases rest with
      | nil => rfl
      | cons c rest =>
        refine Bool.eq_false_iff.2 fun hspace => ?_
        obtain ⟨tag, hm, hstart⟩ := h (lead ++ '<' :: before) c (rest ++ (after ++ textOf pieces))
          (by simp [hs, hsplit]) hspace
        rcases List.mem_cons.1 hm with rfl | hm
        · have hplaced : (mark.placed (p.past lead)).span.start = p.offset + Text.byteSize lead :=
            rfl
          have hpos := Char.utf8Size_pos '<'
          simp only [Text.byteSize_append, Text.byteSize_cons] at hstart
          omega
        · have hle := le_start_of_mem_placedFrom hm
          simp only [hs, hsplit, Place.offset_past, Text.byteSize_append, Text.byteSize_cons]
            at hle hstart
          have hpos := Char.utf8Size_pos '<'
          omega
    · have hhead : mark.text ≠ [] := by simp [hs]
      exact ih (h.after hhead rfl) hrest

end Mark

namespace Call

theorem infix_join (separator : Text) {piece : Text} {pieces : List Text} (h : piece ∈ pieces) :
    piece <:+: Text.join separator pieces := by
  induction pieces with
  | nil => cases h
  | cons first rest ih =>
    cases rest with
    | nil =>
      obtain rfl := List.mem_singleton.1 h
      exact List.infix_refl _
    | cons next rest =>
      rw [Text.join, List.append_assoc]
      · rcases List.mem_cons.1 h with rfl | h
        · exact (List.prefix_append ..).isInfix
        · exact (ih h).trans ((List.suffix_append ..).trans (List.suffix_append ..)).isInfix
      · simp

/-- The body of a block with an end tag stands in its call. -/
theorem body_infix_ofBlock (number : Nat) (block : Block) (h : block.isSelfClosing = false) :
    block.body <:+: ofBlock number block := by
  simp only [ofBlock, h, Bool.false_eq_true, if_false]
  rw [capture, List.append_assoc, List.append_assoc]
  exact ⟨_, _, List.append_assoc ..⟩

/-- The expressions of its values stand in a call. -/
theorem valueExpression_infix_ofBlock (number : Nat) {block : Block} {a : Text × Text}
    (h : a ∈ block.attributes) : valueExpression a.2 <:+: ofBlock number block := by
  have hentry : valueExpression a.2 <:+: attributeMap.entry a := (List.suffix_append ..).isInfix
  have hmap : attributeMap.entry a <:+: attributeMap block.attributes := by
    obtain ⟨before, after, hjoin⟩ :=
      infix_join ", ".toList (List.mem_map_of_mem (f := attributeMap.entry) h)
    refine ⟨'\x7b' :: before, after ++ ['\x7d'], ?_⟩
    rw [attributeMap, ← hjoin]
    simp
  have hopening : attributeMap block.attributes <:+: opening number block := by
    rw [opening, List.append_assoc, List.append_assoc]
    exact ⟨_, _, (List.append_assoc ..)⟩
  have houtput (arguments : Text) :
      opening number block <:+: Delimited.output (opening number block ++ arguments) :=
    ⟨['\x7b', '\x7b', ' '], arguments ++ [' ', '\x7d', '\x7d'], by simp [Delimited.output]⟩
  refine hentry.trans (hmap.trans (hopening.trans ?_))
  unfold ofBlock
  split
  · exact houtput _
  · rw [List.append_assoc, List.append_assoc]
    exact (houtput _).trans (List.suffix_append ..).isInfix

end Call

namespace Forest

/-- The values of all blocks stand in the translation. -/
theorem valueExpression_infix_translate (number : Nat → Tag → Nat) {f : Forest} (h : f.Matched)
    (hkept : ∀ piece ∈ f.pieces, piece.1.tag.KeptFrom piece.1.text) :
    ∀ piece ∈ f.pieces, ∀ a ∈ piece.1.tag.attributes,
      Call.valueExpression a.2 <:+: f.translate number := by
  induction f with
  | nil => simp [pieces]
  | single mark after rest ih =>
    obtain ⟨-, hrest⟩ := List.forall_mem_cons.1 hkept
    refine List.forall_mem_cons.2 ⟨fun a ha => ?_, fun piece hp a ha => ?_⟩
    · exact (Call.valueExpression_infix_ofBlock _ ha).trans (List.prefix_append ..).isInfix
    · exact (ih h.2 hrest piece hp a ha).trans
        ((List.suffix_append ..).trans (List.suffix_append ..)).isInfix
  | pair start inside body finish after rest ihb ihr =>
    obtain ⟨-, hf, -, hb, hr⟩ := h
    obtain ⟨-, hinner⟩ := List.forall_mem_cons.1 hkept
    obtain ⟨hbody, houter⟩ := List.forall_mem_append.1 hinner
    obtain ⟨hfinish, hrest⟩ := List.forall_mem_cons.1 houter
    refine List.forall_mem_cons.2 ⟨fun a ha => ?_,
      List.forall_mem_append.2 ⟨fun piece hp a ha => ?_,
        List.forall_mem_cons.2 ⟨fun a ha => ?_, fun piece hp a ha => ?_⟩⟩⟩
    · exact (Call.valueExpression_infix_ofBlock _ ha).trans (List.prefix_append ..).isInfix
    · refine (ihb hb hbody piece hp a ha).trans (.trans ?_ (List.prefix_append ..).isInfix)
      have hbody := Call.body_infix_ofBlock (number (body.height + 1) start.tag)
        (.enclosing start.tag finish.tag (inside ++ body.translate number)) rfl
      exact ((List.suffix_append inside _).isInfix).trans hbody
    · rw [hfinish.attributes_closing hf] at ha
      cases ha
    · exact (ihr hr hrest piece hp a ha).trans
        ((List.suffix_append ..).trans (List.suffix_append ..)).isInfix

end Forest

/-! ## Text without tags -/

namespace Token

theorem not_opensNamed_of_lex {rest : Text} (h : (Kind.lex '<' rest).1 ≠ .tagStart)
    (h' : (Kind.lex '<' rest).1 ≠ .closingTagStart) :
    opensNamed rest = false ∧ (Kind.lex '<' rest).2 = 0 := by
  rw [lex_angle] at h h' ⊢
  rw [opensNamed]
  cases hname : opensName rest <;> cases hend : opensEnd rest <;> simp_all

/-- Without a mark directly before a name, no `<` of the text names a tag. -/
theorem lacks_of_listFrom (start line : Nat) {s : Text}
    (h : ∀ t ∈ listFrom start line s, t.kind ≠ .tagStart ∧ t.kind ≠ .closingTagStart) :
    Lacks opensNamed s := by
  fun_induction listFrom start line s with
  | case1 => trivial
  | case2 start line c rest token ih =>
    obtain ⟨htoken, hrest⟩ := List.forall_mem_cons.1 h
    have hafter := ih hrest
    by_cases hc : c = '<'
    · subst hc
      obtain ⟨hopens, hmore⟩ := not_opensNamed_of_lex htoken.1 htoken.2
      rw [afterFirst, hmore, List.drop_zero] at hafter
      exact ⟨fun _ => hopens, hafter⟩
    · rw [← text_first_append start line c rest]
      exact (lacks_append_of_notMem (fun hm => hc (eq_angle_of_mem_text hm)) _).2 hafter

end Token

theorem Tag.lacks_of_list_eq_nil {s : Text} (h : list s = .ok []) : Lacks opensNamed s := by
  refine Token.lacks_of_listFrom 0 1 (not_opens_of_next?_none ?_)
  rw [list, listOfTokens_eq] at h
  split at h
  · cases h
  · assumption
  · next after _ =>
    cases hr : listOfTokens after <;> simp [hr, Except.map] at h

namespace Expander

open Forest (Layout Parsed)

/-- No tag is left where a successful expansion ends. -/
theorem list_eq_nil_of_passes {x y : Expander} {source last : Text} {n : Nat}
    (h : x.expand source = ⟨y, last, .ok n⟩) : Tag.list last = .ok [] := by
  obtain ⟨m, z, last', -, hhalts⟩ := exists_steps_halts x source 0
  rw [← expand, h] at hhalts
  cases hhalts with
  | done hl =>
    obtain ⟨tags, ht, hb, hnil⟩ := Block.leaves_eq_ok_iff.1 hl
    obtain rfl := Block.eq_nil_of_leavesOfTags_eq_nil hb hnil.symm
    exact ht

/-- The number of blocks is that of the tags that begin one. -/
theorem length_blocks {f : Forest} (h : f.Matched) :
    f.blocks.length = f.tags.countP (!·.isClosing) := by
  rw [List.countP_eq_length_filter, ← Forest.map_snd_blocks h, List.length_map]

/-- Without a registry, a source is translated as its forest says, in as many passes as the forest
is high and with one call for each tag that begins a block, exactly if no `<` of a value stands
before the name of a tag. -/
theorem expand_eq_translate_iff {source : Text} {tags : List Tag} {pairs : List (Nat × Nat)}
    (hl : Tag.list source = .ok tags) (hp : Tag.pairs tags = .ok pairs)
    (h : Tag.SpacedOpen Place.first source tags) :
    ∃ opening forest, Forest.ofTags? source tags = some (opening, forest) ∧
      (expand { registry := none } source =
          ⟨{ registry := none, issued := tags.countP (!·.isClosing) },
            opening ++ forest.translate forest.number, .ok forest.height⟩ ↔
        ∀ tag ∈ tags, ∀ a ∈ tag.attributes, Lacks opensNamed a.2) := by
  obtain ⟨lead, f, hparsed, rfl, rfl⟩ :=
    Forest.exists_parsed hl (Balanced.exists_pairs_iff.1 ⟨pairs, hp⟩) h
  refine ⟨lead, f, hparsed.ofTags?_eq, fun hexpand tag hm a ha => ?_, fun hvalues => ?_⟩
  · have hlacks := Tag.lacks_of_list_eq_nil (list_eq_nil_of_passes hexpand)
    obtain ⟨piece, hpiece, rfl⟩ := List.mem_map.1 hm
    have hvalue := Forest.valueExpression_infix_translate f.number hparsed.matched
      (fun piece hp => (hparsed.readable piece hp).1.kept) piece hpiece a ha
    exact Call.lacks_of_valueExpression
      (hlacks.named_of_part (hvalue.trans (List.suffix_append ..).isInfix))
  · have hspaced := Mark.lacks_opensSpaced (hparsed.placed ▸ h)
      fun piece hp => (hparsed.readable piece hp).1.begins
    have hlayout : Layout lead f := by
      refine ⟨hparsed, fun piece hp a ha => Token.plain_iff.2 ⟨?_, ?_⟩⟩
      · exact hvalues _ (List.mem_map_of_mem hp) a ha
      · exact (hspaced piece hp).of_part (fun _ _ => Token.not_opensSpaced_of_append)
          ((hparsed.readable piece hp).1.kept.values_infix a ha)
    rw [expand_of_layout hlayout, length_blocks hparsed.matched]

/-- A source with a value whose `<` stands before no name. -/
def comparingSource : Text :=
  "<A x='1<2'/>".toList

def comparingTag : Tag :=
  ⟨['A'], .selfClosing, [(['x'], "1<2".toList)], ⟨0, 12⟩, 1⟩

theorem expand_eq_translate_iff_comparingSource :
    Tag.list comparingSource = .ok [comparingTag] ∧ Tag.pairs [comparingTag] = .ok [] ∧
      Tag.SpacedOpen Place.first comparingSource [comparingTag] ∧
      (expand { registry := none } comparingSource).passes = .ok 1 := by
  have hnext : Tag.next? (Token.list comparingSource) = .ok (some (comparingTag, [])) := by cbv
  have hlist := Tag.listOfTokens_some hnext (Tag.listOfTokens_none rfl)
  have hspaced : Tag.SpacedOpen Place.first comparingSource [comparingTag] := by decide
  obtain ⟨opening, forest, hforest, hiff⟩ :=
    expand_eq_translate_iff hlist (show Tag.pairs [comparingTag] = .ok [] from rfl) hspaced
  have hheight : (Forest.ofTags? comparingSource [comparingTag]).map (·.2.height) = some 1 := by
    cbv
  rw [hforest, Option.map_some, Option.some.injEq] at hheight
  have hvalues : ∀ tag ∈ [comparingTag], ∀ a ∈ tag.attributes, Lacks opensNamed a.2 := by
    simp [comparingTag, Lacks, opensNamed, Token.opensName, Token.opensEnd]
  exact ⟨hlist, rfl, hspaced, by rw [hiff.2 hvalues, hheight]⟩

/-! ## A tag in a value -/

/-- A source whose only tag has a tag written in its value. -/
def taggedSource : Text :=
  "<Card title='<Icon/>'/>".toList

def taggedTag : Tag :=
  ⟨"Card".toList, .selfClosing, [("title".toList, "<Icon/>".toList)], ⟨0, 23⟩, 1⟩

/-- The source after its tag has become a call. -/
def taggedCall : Text :=
  "\x7b\x7b component(\"card\", \x7b\"title\": \"<Icon/>\"\x7d, ".toList ++
    "id=\"card-1\", self_closing=true, is_end=false) \x7d\x7d".toList

/-- The call with another one inside its literal. -/
def taggedText : Text :=
  "\x7b\x7b component(\"card\", \x7b\"title\": \"\x7b\x7b ".toList ++
    "component(\"icon\", \x7b\x7d, id=\"icon-2\", self_closing=true, is_end=false) ".toList ++
    "\x7d\x7d\"\x7d, id=\"card-1\", self_closing=true, is_end=false) \x7d\x7d".toList

theorem list_taggedSource : Tag.list taggedSource = .ok [taggedTag] := by
  have hnext : Tag.next? (Token.list taggedSource) = .ok (some (taggedTag, [])) := by cbv
  exact Tag.listOfTokens_some hnext (Tag.listOfTokens_none rfl)

theorem leaves_taggedCall :
    Block.leaves taggedCall = .ok [⟨"Icon".toList, [], [], true, ⟨32, 39⟩, ⟨32, 39⟩, 1⟩] := by
  have hnext : Tag.next? (Token.list taggedCall) =
      .ok (some (⟨"Icon".toList, .selfClosing, [], ⟨32, 39⟩, 1⟩,
        (Token.list taggedCall).drop 20)) := by cbv
  have hlist : Tag.list taggedCall = .ok [⟨"Icon".toList, .selfClosing, [], ⟨32, 39⟩, 1⟩] :=
    Tag.listOfTokens_some hnext (Tag.listOfTokens_none (by cbv))
  rw [Block.leaves, hlist]
  cbv

theorem leaves_taggedText : Block.leaves taggedText = .ok [] :=
  Block.leaves_of_next?_none (by cbv)

/-- A tag written in a value costs a pass more than the forest is high, is numbered like a tag of
the source and ends as a call inside the literal. -/
theorem expand_taggedSource :
    Tag.list taggedSource = .ok [taggedTag] ∧ Tag.pairs [taggedTag] = .ok [] ∧
      Tag.SpacedOpen Place.first taggedSource [taggedTag] ∧
      (Forest.ofTags? taggedSource [taggedTag]).map (·.2.height) = some 1 ∧
      expand { registry := none } taggedSource =
        ⟨{ registry := none, issued := 2 }, taggedText, .ok 2⟩ := by
  have hfirst : Step { registry := none } taggedSource { registry := none, issued := 1 }
      taggedCall := by
    have hleaves : Block.leaves taggedSource = .ok [.ofSelfClosing taggedTag] := by
      rw [Block.leaves, list_taggedSource]
      cbv
    exact .pass hleaves (by simp) (by cbv)
  have hsecond : Step { registry := none, issued := 1 } taggedCall
      { registry := none, issued := 2 } taggedText :=
    .pass leaves_taggedCall (by simp) (by cbv)
  have hsteps := Steps.cons hfirst (.cons hsecond (.refl ..))
  refine ⟨list_taggedSource, rfl, by decide, by cbv, ?_⟩
  rw [expand, expandFrom_of_steps hsteps, expandFrom_of_halts (.done leaves_taggedText)]

end Expander

end ComponentTags
