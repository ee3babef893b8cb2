import Mathlib.Data.List.Find
import ComponentTags.Proofs.Expansion.Translation
import ComponentTags.Proofs.Forest.Lines

/-!
# The line of an unknown component

An unknown component is reported on the line on which its block stands in the text of the pass that
meets it. That is the line in the source only if the lower blocks before it have kept their line
breaks: a tag written over several lines becomes a call on one line.
-/

namespace ComponentTags

namespace Forest

/-- The line breaks lost by the blocks that are lower than `height` and begin before `tag`. -/
def lostBefore (f : Forest) (height : Nat) (tag : Tag) : Nat :=
  ((f.losses.filter fun loss =>
    loss.1.1 < height && loss.1.2.span.start < tag.span.start).map Prod.snd).sum

theorem lostBefore_eq_zero_iff {f : Forest} {height : Nat} {tag : Tag} :
    f.lostBefore height tag = 0 ↔ ∀ loss ∈ f.losses, loss.1.1 < height →
      loss.1.2.span.start < tag.span.start → loss.2 = 0 := by
  rw [lostBefore, List.sum_eq_zero_iff_forall_eq_nat, List.forall_mem_map]
  simp only [List.mem_filter, Bool.and_eq_true, decide_eq_true_eq, and_imp]

/-- Blocks that begin before a tag are those in front of it. -/
theorem lostBefore_eq {f : Forest}
    (hsorted : (f.blocks.map Prod.snd).Pairwise fun s t => s.span.start < t.span.start)
    {before after : List ((Nat × Tag) × Nat)} {k lost : Nat} {tag : Tag}
    (h : f.losses = before ++ ((k + 1, tag), lost) :: after) :
    f.lostBefore (k + 1) tag = lostUpTo k before := by
  rw [← map_fst_losses, h, List.map_map, List.map_append, List.map_cons,
    List.pairwise_append, List.pairwise_cons] at hsorted
  obtain ⟨-, ⟨hafter, -⟩, hbefore⟩ := hsorted
  have hbefore : before.filter (fun loss =>
      decide (loss.1.1 < k + 1) && decide (loss.1.2.span.start < tag.span.start)) =
        before.filter (·.1.1 ≤ k) := by
    refine List.filter_congr fun loss hm => ?_
    have hlt := hbefore _ (List.mem_map_of_mem hm) _ List.mem_cons_self
    simp only [Function.comp_apply] at hlt
    simp [hlt]
  have hafter : after.filter (fun loss =>
      decide (loss.1.1 < k + 1) && decide (loss.1.2.span.start < tag.span.start)) = [] := by
    rw [List.filter_eq_nil_iff]
    intro loss hm
    have hlt := hafter _ (List.mem_map_of_mem hm)
    simp only [Function.comp_apply] at hlt
    simp only [Bool.and_eq_true, decide_eq_true_eq, not_and]
    omega
  rw [lostBefore, h, List.filter_append, List.filter_cons_of_neg (by simp), hbefore, hafter,
    List.append_nil, lostUpTo]

end Forest

namespace Expander

/-- The leaf block at which a pass stops belongs to the first unknown tag. -/
theorem exists_leaf_of_find? {x : Expander} {lead : Text} {f : Forest} {k : Nat} {block : Block}
    {b : Nat × Tag}
    (hblock : ((x.leavesOfStage lead f k).map Prod.snd).find? (!x.knows ·.name) = some block)
    (hb : (f.blocks.find? fun b => b.1 == k + 1 && !x.knows b.2.name) = some b) :
    ∃ leaf ∈ x.leavesOfStage lead f k, leaf.2 = block ∧ leaf.1 = b.2 := by
  rw [List.find?_map, Option.map_eq_some_iff] at hblock
  obtain ⟨leaf, hfind, rfl⟩ := hblock
  refine ⟨leaf, List.mem_of_find?_eq_some hfind, rfl, ?_⟩
  have hnames :
      (x.leavesOfStage lead f k).find? (fun leaf => !x.knows leaf.1.name) = some leaf := by
    rw [← hfind]
    refine List.find?_congr fun leaf hm => ?_
    rw [Function.comp_apply, Forest.name_of_mem_leavesAt hm]
  have htags := congrArg (List.find? (!x.knows ·.name)) (map_fst_leavesOfStage x lead f k)
  rw [List.find?_map, List.find?_map, List.find?_filter] at htags
  simp only [Function.comp_def, Bool.decide_and, Bool.decide_eq_true, hnames, hb] at htags
  exact Option.some.inj htags

/-- A source in which an unknown component is met has a forest. -/
theorem exists_layout_of_unknown {x : Expander} {source name : Text} {line : Nat}
    (h : ∀ tags, Tag.list source = .ok tags → Tag.Regular source tags)
    (he : (x.expand source).passes = .error (.unknownComponent name line)) :
    ∃ lead f, Forest.Layout lead f ∧ source = lead ++ f.text ∧ Tag.list source = .ok f.tags := by
  cases hb : (Tag.list source).bind Tag.pairs with
  | error e =>
    rw [expand_of_structure_error x hb] at he
    cases he
    cases Tag.isStructural_of_structure hb
  | ok pairs =>
    cases hl : Tag.list source with
    | error e =>
      rw [hl] at hb
      cases hb
    | ok tags =>
      rw [hl] at hb
      obtain ⟨lead, f, hlayout, hsource, rfl, -⟩ := exists_forest hl hb (h tags hl)
      exact ⟨lead, f, hlayout, hsource, rfl⟩

/-- An unknown component is reported on the line of its tag less the line breaks that the lower
blocks before it have lost. So the line is that of the source exactly if they have lost none. -/
theorem line_of_unknown {x : Expander} {source name : Text} {line : Nat}
    (h : ∀ tags, Tag.list source = .ok tags → Tag.Regular source tags)
    (he : (x.expand source).passes = .error (.unknownComponent name line)) :
    ∃ tags opening forest height tag, Tag.list source = .ok tags ∧
      Forest.ofTags? source tags = some (opening, forest) ∧
      (∀ b ∈ forest.blocks, b.1 < height → x.knows b.2.name) ∧
      (forest.blocks.find? fun b => b.1 == height && !x.knows b.2.name) = some (height, tag) ∧
      tag ∈ tags ∧ tag.isClosing = false ∧ tag.name = name ∧
      line + forest.lostBefore height tag = tag.line ∧
      (line = tag.line ↔ ∀ loss ∈ forest.losses, loss.1.1 < height →
        loss.1.2.span.start < tag.span.start → loss.2 = 0) := by
  obtain ⟨lead, f, hlayout, rfl, hl⟩ := exists_layout_of_unknown h he
  obtain ⟨k, ⟨height, tag⟩, blocks, block, y, hlower, hfirst, hleaves, hblock, -, hexpand⟩ :=
    expand_unknown hlayout (exists_unknown_of_error hlayout he).2
  rw [hexpand] at he
  cases he
  rw [leaves_stage hlayout] at hleaves
  cases hleaves
  obtain ⟨leaf, hleaf, rfl, rfl⟩ := exists_leaf_of_find? hblock hfirst
  obtain rfl : height = k + 1 := by
    have hsome := List.find?_some hfirst
    simp only [Bool.and_eq_true, beq_iff_eq] at hsome
    exact hsome.1
  have hkept : ∀ piece ∈ f.pieces, piece.1.tag.KeptFrom piece.1.text :=
    fun piece hp => (hlayout.readable piece hp).1.kept
  rw [leavesOfStage, Place.past_append] at hleaf
  obtain ⟨before, lost, after, hsplit, hline⟩ :=
    Forest.line_of_mem_leavesAt hlayout.matched hkept hlayout.placed hleaf
  rw [← Forest.lostBefore_eq hlayout.pairwise_blocks hsplit] at hline
  have hmem : leaf.1 ∈ f.tags.filter (!·.isClosing) := by
    rw [← Forest.map_snd_blocks hlayout.matched]
    exact List.mem_map_of_mem (f := Prod.snd) (List.mem_of_find?_eq_some hfirst)
  obtain ⟨hmem, hkind⟩ := List.mem_filter.1 hmem
  refine ⟨_, lead, f, k + 1, leaf.1, hl, hlayout.ofTags?_eq,
    fun b hb hlt => hlower b hb (Nat.le_of_lt_succ hlt), hfirst, hmem, by simpa using hkind,
    (Forest.name_of_mem_leavesAt hleaf).symm, by omega, ?_⟩
  rw [← Forest.lostBefore_eq_zero_iff]
  omega

/-! ## A tag over two lines -/

/-- A source in which a tag over two lines stands before an unknown component. -/
def brokenSource : Text :=
  "<Icon\n/>\n<Wrap><Icon/></Wrap>".toList

def brokenTags : List Tag :=
  [⟨"Icon".toList, .selfClosing, [], ⟨0, 8⟩, 1⟩, ⟨"Wrap".toList, .opening, [], ⟨9, 15⟩, 3⟩,
    ⟨"Icon".toList, .selfClosing, [], ⟨15, 22⟩, 3⟩, ⟨"Wrap".toList, .closing, [], ⟨22, 29⟩, 3⟩]

/-- The source after the pass that replaces the two icons. -/
def brokenText : Text :=
  "\x7b\x7b component(\"icon\", \x7b\x7d, id=\"icon-1\", ".toList ++
    "self_closing=true, is_end=false) \x7d\x7d\n<Wrap>".toList ++
    "\x7b\x7b component(\"icon\", \x7b\x7d, id=\"icon-2\", ".toList ++
    "self_closing=true, is_end=false) \x7d\x7d</Wrap>".toList

/-- A registry that knows the icon alone. -/
def iconRegistry : Registry :=
  { folder := "components".toList, sources := [("icon".toList, [])] }

theorem list_brokenSource : Tag.list brokenSource = .ok brokenTags := by
  have hfirst : Tag.next? (Token.list brokenSource) =
      .ok (some (⟨"Icon".toList, .selfClosing, [], ⟨0, 8⟩, 1⟩,
        (Token.list brokenSource).drop 4)) := by cbv
  have hsecond : Tag.next? ((Token.list brokenSource).drop 4) =
      .ok (some (⟨"Wrap".toList, .opening, [], ⟨9, 15⟩, 3⟩,
        (Token.list brokenSource).drop 8)) := by cbv
  have hthird : Tag.next? ((Token.list brokenSource).drop 8) =
      .ok (some (⟨"Icon".toList, .selfClosing, [], ⟨15, 22⟩, 3⟩,
        (Token.list brokenSource).drop 11)) := by cbv
  have hfourth : Tag.next? ((Token.list brokenSource).drop 11) =
      .ok (some (⟨"Wrap".toList, .closing, [], ⟨22, 29⟩, 3⟩, [])) := by cbv
  exact Tag.listOfTokens_some hfirst <| Tag.listOfTokens_some hsecond <|
    Tag.listOfTokens_some hthird <| Tag.listOfTokens_some hfourth (Tag.listOfTokens_none rfl)

theorem leaves_brokenText : Block.leaves brokenText =
    .ok [⟨"Wrap".toList, [], Text.slice 80 153 brokenText, false, ⟨74, 80⟩, ⟨74, 160⟩, 2⟩] := by
  have hfirst : Tag.next? (Token.list brokenText) =
      .ok (some (⟨"Wrap".toList, .opening, [], ⟨74, 80⟩, 2⟩,
        (Token.list brokenText).drop 41)) := by cbv
  have hsecond : Tag.next? ((Token.list brokenText).drop 41) =
      .ok (some (⟨"Wrap".toList, .closing, [], ⟨153, 160⟩, 2⟩, [])) := by cbv
  have hlist : Tag.list brokenText = .ok [⟨"Wrap".toList, .opening, [], ⟨74, 80⟩, 2⟩,
      ⟨"Wrap".toList, .closing, [], ⟨153, 160⟩, 2⟩] :=
    Tag.listOfTokens_some hfirst (Tag.listOfTokens_some hsecond (Tag.listOfTokens_none rfl))
  rw [Block.leaves, hlist]
  cbv

theorem expand_brokenSource :
    (expand { registry := some iconRegistry } brokenSource).passes =
      .error (.unknownComponent "Wrap".toList 2) := by
  have hfirst : Step { registry := some iconRegistry } brokenSource
      { registry := some iconRegistry, issued := 2 } brokenText := by
    have hleaves : Block.leaves brokenSource =
        .ok [.ofSelfClosing brokenTags[0], .ofSelfClosing brokenTags[2]] := by
      rw [Block.leaves, list_brokenSource]
      cbv
    exact .pass hleaves (by simp) (by cbv)
  have hhalts : Halts { registry := some iconRegistry, issued := 2 } brokenText (0 + 1)
      ⟨{ registry := some iconRegistry, issued := 2 }, brokenText,
        .error (.unknownComponent "Wrap".toList 2)⟩ :=
    .unknown leaves_brokenText (by cbv)
  rw [expand, expandFrom_of_step hfirst, expandFrom_of_halts hhalts]

theorem line_of_unknown_brokenSource :
    (expand { registry := some iconRegistry } brokenSource).passes =
        .error (.unknownComponent "Wrap".toList 2) ∧
      ∃ opening forest height tag, Forest.ofTags? brokenSource brokenTags = some (opening, forest) ∧
        tag ∈ brokenTags ∧ tag.name = "Wrap".toList ∧
        2 + forest.lostBefore height tag = tag.line := by
  have hregular : ∀ tags, Tag.list brokenSource = .ok tags → Tag.Regular brokenSource tags := by
    intro tags hl
    rw [list_brokenSource] at hl
    cases hl
    exact ⟨by decide, by decide⟩
  obtain ⟨tags, opening, forest, height, tag, hl, hforest, -, -, hmem, -, hname, hline, -⟩ :=
    line_of_unknown hregular expand_brokenSource
  rw [list_brokenSource] at hl
  cases hl
  exact ⟨expand_brokenSource, opening, forest, height, tag, hforest, hmem, hname, hline⟩

/-- The component that is reported for line 2 stands on line 3 and nowhere else. -/
theorem not_line_of_unknown_brokenSource :
    Tag.list brokenSource = .ok brokenTags ∧ Tag.Regular brokenSource brokenTags ∧
      (expand { registry := some iconRegistry } brokenSource).passes =
        .error (.unknownComponent "Wrap".toList 2) ∧
      ∀ tag ∈ brokenTags, tag.name = "Wrap".toList → tag.line = 3 :=
  ⟨list_brokenSource, ⟨by decide, by decide⟩, expand_brokenSource, by decide⟩

end Expander

end ComponentTags
