import Mathlib
import ComponentTags.Proofs.Expansion.Stages
import ComponentTags.Proofs.Tag.Faults

/-!
# Translation

An expansion makes of a source what one recursion over the forest of its tags makes of it, and it
takes as many passes as the forest is high. It fails in two ways only: at a source whose tags cannot
be read or paired, which it leaves as it is, and at a component that is not known. If it succeeds,
no tag is left.
-/

namespace ComponentTags

namespace Expander

theorem exists_forest {source : Text} {tags : List Tag} {pairs : List (Nat × Nat)}
    (hl : Tag.list source = .ok tags) (hp : Tag.pairs tags = .ok pairs)
    (h : Tag.Regular source tags) :
    ∃ lead f, Forest.Layout lead f ∧ source = lead ++ f.text ∧ f.tags = tags ∧
      f.pairsFrom 0 = pairs := by
  obtain ⟨lead, f, hlayout, hsource, rfl⟩ :=
    Forest.exists_layout hl (Balanced.exists_pairs_iff.1 ⟨pairs, hp⟩) h
  rw [Forest.pairs_tags hlayout.matched, Except.ok.injEq] at hp
  exact ⟨lead, f, hlayout, hsource, rfl, hp⟩

/-- A source with a block inside another one, whose `<` is set off by white space. -/
def nestedSource : Text :=
  "<A> < B x='1'/></A>".toList

def nestedTags : List Tag :=
  [⟨['A'], .opening, [], ⟨0, 3⟩, 1⟩, ⟨['B'], .selfClosing, [(['x'], ['1'])], ⟨4, 15⟩, 1⟩,
    ⟨['A'], .closing, [], ⟨15, 19⟩, 1⟩]

theorem list_nestedSource : Tag.list nestedSource = .ok nestedTags := by
  have hfirst : Tag.next? (Token.list nestedSource) =
      .ok (some (⟨['A'], .opening, [], ⟨0, 3⟩, 1⟩, (Token.list nestedSource).drop 3)) := by cbv
  have hsecond : Tag.next? ((Token.list nestedSource).drop 3) =
      .ok (some (⟨['B'], .selfClosing, [(['x'], ['1'])], ⟨4, 15⟩, 1⟩,
        (Token.list nestedSource).drop 14)) := by cbv
  have hthird : Tag.next? ((Token.list nestedSource).drop 14) =
      .ok (some (⟨['A'], .closing, [], ⟨15, 19⟩, 1⟩, [])) := by cbv
  exact Tag.listOfTokens_some hfirst <| Tag.listOfTokens_some hsecond <|
    Tag.listOfTokens_some hthird (Tag.listOfTokens_none rfl)

theorem regular_nestedSource : Tag.Regular nestedSource nestedTags :=
  ⟨by decide, by decide⟩

/-- The calls that the two blocks become, the inner one numbered first. -/
def nestedText : Text :=
  "\x7b% set __tagplate_body_2 %\x7d ".toList ++
    "\x7b\x7b component(\"b\", \x7b\"x\": \"1\"\x7d, ".toList ++
    "id=\"b-1\", self_closing=true, is_end=false) \x7d\x7d".toList ++
    "\x7b% endset %\x7d\x7b\x7b component(\"a\", \x7b\x7d, id=\"a-2\", ".toList ++
    "self_closing=false, is_end=true, body=__tagplate_body_2) \x7d\x7d".toList

theorem translate_nestedSource {opening : Text} {forest : Forest}
    (h : Forest.ofTags? nestedSource nestedTags = some (opening, forest)) :
    opening ++ forest.translate forest.number = nestedText ∧ forest.blocks.length = 2 ∧
      forest.height = 2 := by
  have hforest : (Forest.ofTags? nestedSource nestedTags).map (fun p =>
      (p.1 ++ p.2.translate p.2.number, p.2.blocks.length, p.2.height)) =
        some (nestedText, 2, 2) := by cbv
  rw [h] at hforest
  simpa only [Option.map_some, Option.some.injEq, Prod.mk.injEq] using hforest

/-- Without a registry, the passes over a source together make the translation of its forest, with
calls numbered from one by height and place. -/
theorem expand_eq_translate {source : Text} {tags : List Tag} {pairs : List (Nat × Nat)}
    (hl : Tag.list source = .ok tags) (hp : Tag.pairs tags = .ok pairs)
    (h : Tag.Regular source tags) :
    ∃ opening forest, Forest.ofTags? source tags = some (opening, forest) ∧
      opening ++ forest.text = source ∧ forest.tags = tags ∧ forest.pairsFrom 0 = pairs ∧
      expand { registry := none } source =
        ⟨{ registry := none, issued := forest.blocks.length },
          opening ++ forest.translate forest.number, .ok forest.height⟩ := by
  obtain ⟨lead, f, hlayout, rfl, rfl, rfl⟩ := exists_forest hl hp h
  refine ⟨lead, f, hlayout.ofTags?_eq, rfl, rfl, rfl, ?_⟩
  have hnumber : numbering { registry := none } f = f.number := by
    funext height tag
    exact Nat.zero_add _
  rw [expand_known hlayout fun _ _ => rfl, hnumber]
  simp only [Nat.zero_add]

theorem expand_eq_translate_nestedSource :
    Tag.list nestedSource = .ok nestedTags ∧ Tag.pairs nestedTags = .ok [(0, 2)] ∧
      Tag.Regular nestedSource nestedTags ∧
      expand { registry := none } nestedSource =
        ⟨{ registry := none, issued := 2 }, nestedText, .ok 2⟩ := by
  have hpairs : Tag.pairs nestedTags = .ok [(0, 2)] := rfl
  obtain ⟨opening, forest, hforest, -, -, -, hexpand⟩ :=
    expand_eq_translate list_nestedSource hpairs regular_nestedSource
  obtain ⟨htext, hissued, hheight⟩ := translate_nestedSource hforest
  refine ⟨list_nestedSource, hpairs, regular_nestedSource, ?_⟩
  rw [hexpand, htext, hissued, hheight]

theorem expand_of_structure_error (x : Expander) {source : Text} {e : Error}
    (h : (Tag.list source).bind Tag.pairs = .error e) :
    x.expand source = ⟨x, source, .error e⟩ := by
  refine expandFrom_of_halts (.invalid ?_)
  rw [Block.leaves]
  cases hl : Tag.list source with
  | error e' =>
    rw [hl] at h
    cases h
    rfl
  | ok tags =>
    rw [hl] at h
    have hp : Tag.pairs tags = .error e := h
    simp only [bind, Except.bind, hp]

theorem knows_eq_contains {x : Expander} {registry : Registry} (hx : x.registry = some registry)
    (name : Text) : x.knows name = registry.contains name := by
  rw [knows, hx]
  rfl

theorem knows_all_or_exists (x : Expander) (f : Forest) :
    (∀ b ∈ f.blocks, x.knows b.2.name) ∨ ∃ b ∈ f.blocks, x.knows b.2.name = false := by
  by_cases hunknown : ∃ b ∈ f.blocks, x.knows b.2.name = false
  · exact .inr hunknown
  · refine .inl fun b hb => ?_
    cases hk : x.knows b.2.name with
    | true => rfl
    | false => exact absurd ⟨b, hb, hk⟩ hunknown

/-- Once the tags are paired, an unknown component is the only cause of failure. -/
theorem exists_unknown_of_error {x : Expander} {lead : Text} {f : Forest} {e : Error}
    (h : Forest.Layout lead f) (he : (x.expand (lead ++ f.text)).passes = .error e) :
    (∃ name line, e = .unknownComponent name line) ∧ ∃ b ∈ f.blocks, x.knows b.2.name = false := by
  rcases x.knows_all_or_exists f with hknown | hunknown
  · rw [expand_known h hknown] at he
    cases he
  · obtain ⟨k, b, blocks, block, y, -, -, -, -, -, hexpand⟩ := expand_unknown h hunknown
    rw [hexpand] at he
    cases he
    exact ⟨⟨_, _, rfl⟩, hunknown⟩

/-- A structural error of an expansion is one of the source. -/
theorem structure_error_of_expand {x : Expander} {source : Text} {e : Error}
    (h : ∀ tags, Tag.list source = .ok tags → Tag.Regular source tags) (hs : e.isStructural)
    (he : (x.expand source).passes = .error e) : (Tag.list source).bind Tag.pairs = .error e := by
  cases hb : (Tag.list source).bind Tag.pairs with
  | error e' =>
    rw [expand_of_structure_error x hb] at he
    cases he
    rfl
  | ok pairs =>
    cases hl : Tag.list source with
    | error e' =>
      rw [hl] at hb
      cases hb
    | ok tags =>
      rw [hl] at hb
      obtain ⟨lead, f, hlayout, rfl, -, -⟩ := exists_forest hl hb (h tags hl)
      obtain ⟨⟨name, line, rfl⟩, -⟩ := exists_unknown_of_error hlayout he
      cases hs

/-- How an expansion with a registry ends. It stops at a structural error exactly if the source has
that error, and leaves the source as it is. Otherwise it stops exactly if a component is unknown: at
the first unknown block of the least height at which there is one, with all lower blocks replaced.
In all other cases it succeeds. -/
theorem expand_outcome {x : Expander} {registry : Registry} (hx : x.registry = some registry)
    {source : Text} (h : ∀ tags, Tag.list source = .ok tags → Tag.Regular source tags) :
    (∀ e, (Tag.list source).bind Tag.pairs = .error e ↔
      e.isStructural ∧ (x.expand source).passes = .error e) ∧
    (∀ e, e.isStructural → (x.expand source).passes = .error e → (x.expand source).text = source) ∧
    ∀ tags pairs, Tag.list source = .ok tags → Tag.pairs tags = .ok pairs →
      ∃ opening forest, Forest.ofTags? source tags = some (opening, forest) ∧
        ((∃ tag ∈ tags, tag.isClosing = false ∧ registry.contains tag.name = false) ↔
          ∃ name line, (x.expand source).passes = .error (.unknownComponent name line)) ∧
        (∀ name line, (x.expand source).passes = .error (.unknownComponent name line) →
          ∃ height b blocks block,
            (∀ b ∈ forest.blocks, b.1 < height → registry.contains b.2.name) ∧
            (forest.blocks.find? fun b => b.1 == height && !registry.contains b.2.name) =
              some b ∧
            (x.expand source).text =
              opening ++ forest.replaceBelow (x.numbering forest) height ∧
            Block.leaves (x.expand source).text = .ok blocks ∧
            blocks.find? (!registry.contains ·.name) = some block ∧
            name = block.name ∧ line = block.line ∧ block.name = b.2.name) ∧
        ((∀ tag ∈ tags, tag.isClosing = false → registry.contains tag.name) →
          (x.expand source).passes = .ok forest.height ∧
          (x.expand source).text = opening ++ forest.translate (x.numbering forest)) := by
  have hknows := knows_eq_contains hx
  refine ⟨fun e => ⟨fun hb => ⟨Tag.isStructural_of_structure hb, ?_⟩, fun he => ?_⟩,
    fun e hs he => ?_, fun tags pairs hl hp => ?_⟩
  · rw [expand_of_structure_error x hb]
  · exact structure_error_of_expand h he.1 he.2
  · rw [expand_of_structure_error x (structure_error_of_expand h hs he)]
  · obtain ⟨lead, f, hlayout, rfl, rfl, rfl⟩ := exists_forest hl hp (h tags hl)
    have hblocks :=
      Forest.exists_mem_blocks_iff hlayout.matched (P := fun tag => x.knows tag.name = false)
    simp only [← hknows]
    refine ⟨lead, f, hlayout.ofTags?_eq, ⟨fun hunknown => ?_, ?_⟩, ?_, fun hknown => ?_⟩
    · obtain ⟨k, b, blocks, block, y, -, -, -, -, -, hexpand⟩ :=
        expand_unknown hlayout (hblocks.2 hunknown)
      exact ⟨block.name, block.line, by rw [hexpand]⟩
    · rintro ⟨name, line, he⟩
      exact hblocks.1 (exists_unknown_of_error hlayout he).2
    · intro name line he
      obtain ⟨k, b, blocks, block, y, hlower, hfirst, hleaves, hblock, hname, hexpand⟩ :=
        expand_unknown hlayout (exists_unknown_of_error hlayout he).2
      rw [hexpand] at he ⊢
      cases he
      exact ⟨k + 1, b, blocks, block, fun b hb hlt => hlower b hb (Nat.le_of_lt_succ hlt), hfirst,
        rfl, hleaves, hblock, rfl, rfl, hname⟩
    · rcases x.knows_all_or_exists f with hall | hunknown
      · rw [expand_known hlayout hall]
        exact ⟨rfl, rfl⟩
      · obtain ⟨tag, hm, hk, hfalse⟩ := hblocks.1 hunknown
        rw [hknown tag hm hk] at hfalse
        cases hfalse

theorem expand_outcome_nestedSource :
    ∃ name line, (expand { registry := some { folder := [] } } nestedSource).passes =
      .error (.unknownComponent name line) := by
  have hregular : ∀ tags, Tag.list nestedSource = .ok tags → Tag.Regular nestedSource tags := by
    intro tags hl
    rw [list_nestedSource] at hl
    cases hl
    exact regular_nestedSource
  obtain ⟨-, -, hpaired⟩ :=
    expand_outcome (x := { registry := some { folder := [] } }) rfl hregular
  obtain ⟨opening, forest, -, hunknown, -⟩ :=
    hpaired nestedTags [(0, 2)] list_nestedSource rfl
  exact hunknown.1 ⟨⟨['B'], .selfClosing, [(['x'], ['1'])], ⟨4, 15⟩, 1⟩, by decide, rfl, rfl⟩

/-! ## What is left in the end -/

/-- A successful expansion leaves no tag behind, so that any expander leaves its text as it is. -/
theorem expand_text_of_ok {x : Expander} {source : Text} {n : Nat}
    (h : (x.expand source).passes = .ok n) :
    Tag.list (x.expand source).text = .ok [] ∧
      ∀ y : Expander, y.expand (x.expand source).text = ⟨y, (x.expand source).text, .ok 0⟩ := by
  obtain ⟨m, z, last, -, hhalts⟩ := exists_steps_halts x source 0
  rw [expand] at h ⊢
  generalize x.expandFrom 0 source = r at h hhalts
  cases hhalts with
  | invalid => cases h
  | unknown => cases h
  | done hl =>
    obtain ⟨tags, ht, hb, hnil⟩ := Block.leaves_eq_ok_iff.1 hl
    obtain rfl := Block.eq_nil_of_leavesOfTags_eq_nil hb hnil.symm
    exact ⟨ht, fun y => expandFrom_of_halts (.done hl)⟩

theorem expand_text_of_ok_nestedSource :
    (expand { registry := none } nestedSource).passes = .ok 2 ∧
      Tag.list (expand { registry := none } nestedSource).text = .ok [] := by
  obtain ⟨lead, f, hlayout, hsource, htags, -⟩ :=
    exists_forest list_nestedSource (show Tag.pairs nestedTags = .ok [(0, 2)] from rfl)
      regular_nestedSource
  have hforest := hlayout.ofTags?_eq
  rw [← hsource, htags] at hforest
  have hpasses : (expand { registry := none } nestedSource).passes = .ok 2 := by
    rw [hsource, expand_known hlayout fun _ _ => rfl, (translate_nestedSource hforest).2.2]
  exact ⟨hpasses, (expand_text_of_ok hpasses).1⟩

end Expander

end ComponentTags
