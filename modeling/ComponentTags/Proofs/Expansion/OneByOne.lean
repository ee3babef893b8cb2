import Mathlib.Data.Set.Function
import Mathlib.Order.Interval.Set.Defs
import ComponentTags.Proofs.Block.Innermost
import ComponentTags.Proofs.Expansion.Translation
import ComponentTags.Proofs.Forest.Folding

/-!
# Blocks one by one

Blocks can be replaced one by one instead of by passes, the innermost block first each time. A block
that has become a call leaves the fold over the marks as it is, so whatever the order, the text ends
as the translation of the forest and the order shows in the numbers alone. The loop fails exactly
where an expansion without a registry does.
-/

namespace ComponentTags

open Mark (fold heads joined)

namespace Expander

/-- Replaces the innermost block until there is none, after `issued` calls. -/
def oneByOne (issued : Nat) (source : Text) : Except Error Text :=
  match h : Block.innermost source with
  | .error e => .error e
  | .ok none => .ok source
  | .ok (some block) =>
    have := count_replaceOne_lt h (issued + 1)
    oneByOne (issued + 1) (replaceOne (issued + 1) source block)
termination_by source.count '<'

end Expander

/-- Text and marks of which no call brings up a tag. -/
structure Mark.Settled (lead : Text) (pieces : Mark.Sequence) : Prop where
  plain : Token.Plain lead
  readable : Mark.Readable pieces
  values : ∀ piece ∈ pieces, ∀ a ∈ piece.1.tag.attributes, Token.Plain a.2

namespace Mark

/-- Where no innermost block is found, the marks are not those of a forest. -/
theorem fold_ne_of_stuck {p : Place} {pieces : Sequence}
    (h : Block.Stuck (placedFrom p pieces)) (number : Tag → Nat) (text : Text) :
    fold number pieces ≠ some ⟨text, []⟩ := by
  generalize htags : placedFrom p pieces = tags at h
  cases h with
  | unmatched rest hk =>
    obtain ⟨mark, gap, pieces, rfl, rfl, -⟩ := exists_of_placedFrom_eq_cons htags
    rw [kind_placed] at hk
    rw [fold_cons]
    cases fold number pieces with
    | none => simp
    | some r => simp [Folded.prepend_finish hk]
  | missing before hk =>
    obtain ⟨done, rest, rfl, hrest⟩ := exists_of_placedFrom_eq_append htags
    obtain ⟨mark, gap, rest, rfl, rfl, hnil⟩ := exists_of_placedFrom_eq_cons hrest
    obtain rfl : rest = [] := by simpa using congrArg List.length hnil
    rw [kind_placed] at hk
    have hnone : fold number [(mark, gap)] = none := by simp [Folded.prepend_missing hk]
    simp [fold_append_of_none hnone]
  | mismatched before after hk hf hn =>
    obtain ⟨done, rest, rfl, hrest⟩ := exists_of_placedFrom_eq_append htags
    obtain ⟨start, inside, rest, rfl, rfl, hinner⟩ := exists_of_placedFrom_eq_cons hrest
    obtain ⟨finish, gap, rest, rfl, rfl, -⟩ := exists_of_placedFrom_eq_cons hinner
    rw [kind_placed] at hk hf
    rw [sameName_placed] at hn
    have hnone : fold number ((start, inside) :: (finish, gap) :: rest) = none := by
      rw [fold_cons, fold_cons]
      cases fold number rest with
      | none => rfl
      | some r => simp [Folded.prepend_finish hf, Folded.prepend_mismatched hk _ _ _ _ hn]
    simp [fold_append_of_none hnone]

/-- A leaf block is a forest of one block, and its call takes the place of the tags. -/
theorem exists_forest_of_leafOf {source : Text} {p : Place} {pieces : Sequence} {block : Block}
    (hp : p.Begins (textOf pieces) source)
    (h : Block.LeafOf source (placedFrom p pieces) block) :
    ∃ (f : Forest) (tag : Tag) (covered gap : Text) (rest : Sequence),
      pieces = f.pieces ++ rest ∧ f.Matched ∧ f.blocks = [(1, tag)] ∧ f.text = covered ++ gap ∧
      block.full = ⟨p.offset, p.offset + Text.byteSize covered⟩ ∧
      ∀ number, f.translate (fun _ _ => number) = Call.ofBlock number block ++ gap := by
  generalize htags : placedFrom p pieces = tags at h
  cases h with
  | single rest hk =>
    obtain ⟨mark, gap, rest, rfl, rfl, -⟩ := exists_of_placedFrom_eq_cons htags
    refine ⟨.single mark gap .nil, mark.tag, mark.text, gap, rest, rfl, ⟨hk, trivial⟩, rfl,
      by simp, rfl, fun number => ?_⟩
    rw [Forest.translate, Forest.translate, List.append_nil]
    rfl
  | pair rest hk hf hn =>
    obtain ⟨start, inside, rest, rfl, rfl, hinner⟩ := exists_of_placedFrom_eq_cons htags
    obtain ⟨finish, gap, rest, rfl, rfl, -⟩ := exists_of_placedFrom_eq_cons hinner
    rw [kind_placed] at hk hf
    refine ⟨.pair start inside .nil finish gap .nil, start.tag,
      start.text ++ (inside ++ finish.text), gap, rest, rfl, ⟨hk, hf, hn, trivial, trivial⟩, rfl,
      by simp, ?_, fun number => ?_⟩
    · simp [Block.ofPair, placed, Nat.add_assoc]
    · rw [textOf_cons] at hp
      have hbody : Text.slice (p.past start.text).offset ((p.past start.text).past inside).offset
          source = inside := hp.past.slice
      have hcall : Call.ofBlock number (.ofPair source (start.placed p)
          (finish.placed ((p.past start.text).past inside))) =
            Call.ofBlock number (.enclosing start.tag finish.tag (Text.slice
              (p.past start.text).offset ((p.past start.text).past inside).offset source)) := rfl
      rw [hbody] at hcall
      rw [hcall]
      simp [Forest.translate]

namespace Settled

variable {lead : Text} {pieces : Sequence}

theorem list_eq (h : Settled lead pieces) :
    Tag.list (lead ++ textOf pieces) = .ok (placedFrom (Place.first.past lead) pieces) :=
  listOfTokens_marked h.plain h.readable Place.first

/-- The innermost block is a forest of one block among the marks, and its call takes the place of
the marks. -/
theorem exists_of_innermost (h : Settled lead pieces) {block : Block}
    (hi : Block.innermost (lead ++ textOf pieces) = .ok (some block)) :
    ∃ (before rest : Sequence) (f : Forest) (tag : Tag), pieces = before ++ (f.pieces ++ rest) ∧
      f.Matched ∧ f.blocks = [(1, tag)] ∧
      ∀ number, Expander.replaceOne number (lead ++ textOf pieces) block =
        lead ++ (textOf before ++ (f.translate (fun _ _ => number) ++ textOf rest)) := by
  obtain ⟨before, leaf, hl, hleaf⟩ := Block.exists_leafOf_of_innermost hi
  rw [h.list_eq, Except.ok.injEq] at hl
  obtain ⟨done, pieces, rfl, rfl⟩ := exists_of_placedFrom_eq_append hl
  have hplace : ((Place.first.past lead).past (textOf done)).offset =
      Text.byteSize (lead ++ textOf done) := by
    simp [Place.first]
  have hbegins := (Place.begins_first (lead ++ textOf (done ++ pieces))).past
  rw [textOf_append] at hbegins
  obtain ⟨f, tag, covered, gap, rest, rfl, hf, hblocks, htext, hfull, hcall⟩ :=
    exists_forest_of_leafOf hbegins.past (textOf_append .. ▸ hleaf)
  refine ⟨done, rest, f, tag, rfl, hf, hblocks, fun number => ?_⟩
  rw [hplace] at hfull
  have hreplace := Expander.replaceOne_eq hfull number (gap ++ textOf rest)
  have htext : textOf f.pieces = covered ++ gap := htext
  simpa [hcall, htext] using hreplace

/-- The marks of a forest among others may be translated beforehand. -/
theorem joined {before rest : Sequence} {f : Forest}
    (h : Settled lead (before ++ (f.pieces ++ rest))) (number : Nat → Tag → Nat) :
    Settled (lead ++ (Mark.joined (f.translate number) rest before).1)
      (Mark.joined (f.translate number) rest before).2 := by
  obtain ⟨hbefore, hinner⟩ := List.forall_mem_append.1 h.readable
  obtain ⟨hf, hrest⟩ := List.forall_mem_append.1 hinner
  obtain ⟨hbeforeValues, hinner⟩ := List.forall_mem_append.1 h.values
  obtain ⟨hfValues, hrestValues⟩ := List.forall_mem_append.1 hinner
  obtain ⟨hfront, hinert⟩ := Forest.plain_translate number hf hfValues
  obtain ⟨hplain, hhead, hreadable⟩ := readable_joined hfront hinert hrest hbefore
  refine ⟨Token.plain_append h.plain hplain hhead, hreadable, fun piece hp => ?_⟩
  have hmark := List.mem_map_of_mem (f := Prod.fst) hp
  rw [map_fst_joined] at hmark
  obtain ⟨piece', hp', heq⟩ := List.mem_map.1 hmark
  rw [← heq]
  exact (List.mem_append.1 hp').elim (hbeforeValues piece') (hrestValues piece')

/-- Replacing the innermost block takes the tag that begins it away and keeps the fold over all
marks, as long as that tag has the number of the call. -/
theorem replaceOne (h : Settled lead pieces) {block : Block}
    (hi : Block.innermost (lead ++ textOf pieces) = .ok (some block)) (n : Nat) :
    ∃ (front : Text) (pieces' : Sequence) (tag : Tag),
      Expander.replaceOne n (lead ++ textOf pieces) block = (lead ++ front) ++ textOf pieces' ∧
      Settled (lead ++ front) pieces' ∧ (heads pieces).Perm (tag :: heads pieces') ∧
      ∀ number : Tag → Nat, number tag = n →
        fold number pieces = (fold number pieces').map (·.after front) := by
  obtain ⟨before, rest, f, tag, rfl, hf, hblocks, hreplace⟩ := h.exists_of_innermost hi
  let front := f.translate fun _ _ => n
  refine ⟨(Mark.joined front rest before).1, (Mark.joined front rest before).2, tag, ?_,
    h.joined _, ?_, fun number hnumber => ?_⟩
  · rw [hreplace, ← textOf_joined, List.append_assoc]
  · rw [heads_joined, heads_append, heads_append, Forest.heads_pieces hf, hblocks]
    exact List.perm_middle
  · refine fold_joined ?_ before
    have hfront : (f.translate fun _ => number) = front := by
      refine Forest.translate_congr fun b hb => ?_
      rw [hblocks, List.mem_singleton] at hb
      rw [hb, hnumber]
    rw [Forest.fold_append hf, hfront]

end Settled

end Mark

/-! ## The loop -/

namespace Expander

open Mark (Settled textOf)

variable {lead text : Text} {pieces : Mark.Sequence} {issued : Nat}

/-- Where the loop ends, its text is the fold over the marks, with the calls numbered in the order
in which they were made. -/
theorem exists_fold_of_oneByOne (h : Settled lead pieces) (hheads : (heads pieces).Nodup)
    (hrun : oneByOne issued (lead ++ textOf pieces) = .ok text) :
    ∃ number text', fold number pieces = some ⟨text', []⟩ ∧ text = lead ++ text' ∧
      ((heads pieces).map number).Perm (List.range' (issued + 1) (heads pieces).length) := by
  generalize hs : lead ++ textOf pieces = source at hrun
  fun_induction oneByOne issued source generalizing lead pieces with
  | case1 => cases hrun
  | case2 issued source hnone =>
    cases hrun
    subst hs
    have hnil := h.list_eq.symm.trans (Block.list_eq_nil_of_innermost hnone)
    obtain rfl : pieces = [] := by simpa using congrArg List.length (Except.ok.inj hnil)
    exact ⟨fun _ => 0, [], rfl, rfl, .refl []⟩
  | case3 issued source block hsome hlt ih =>
    subst hs
    obtain ⟨front, pieces', tag, hreplace, hsettled, hperm, hfold⟩ :=
      h.replaceOne hsome (issued + 1)
    obtain ⟨hfresh, hheads'⟩ := List.nodup_cons.1 (hperm.nodup_iff.1 hheads)
    obtain ⟨number, text', hfold', rfl, hnumbers⟩ := ih hsettled hheads' hreplace.symm hrun
    -- the tag of the block is none of those left, so its number is free
    have hothers : ∀ other ∈ heads pieces',
        Function.update number tag (issued + 1) other = number other := by
      intro other hm
      have hne : other ≠ tag := by
        rintro rfl
        exact hfresh hm
      exact Function.update_of_ne hne ..
    refine ⟨Function.update number tag (issued + 1), front ++ text', ?_, by simp, ?_⟩
    · rw [hfold _ (Function.update_self ..), Mark.fold_congr hothers, hfold']
      rfl
    · refine (hperm.map _).trans ?_
      rw [List.map_cons, Function.update_self, List.map_congr_left hothers, hperm.length_eq,
        List.length_cons, List.range'_succ]
      exact hnumbers.cons _

/-- The loop ends at the marks of a forest. -/
theorem exists_oneByOne {f : Forest} (h : Settled lead f.pieces) (hf : f.Matched) (issued : Nat) :
    ∃ text, oneByOne issued (lead ++ f.text) = .ok text := by
  generalize hs : lead ++ f.text = source
  fun_induction oneByOne issued source generalizing lead f with
  | case1 issued source e herror =>
    subst hs
    have hstuck := Block.stuck_of_innermost h.list_eq herror
    exact absurd (Forest.fold_pieces hf) (Mark.fold_ne_of_stuck hstuck (fun _ => 0) _)
  | case2 issued source => exact ⟨source, rfl⟩
  | case3 issued source block hsome hlt ih =>
    subst hs
    obtain ⟨front, pieces', tag, hreplace, hsettled, -, hfold⟩ := h.replaceOne hsome (issued + 1)
    have hrest := (hfold (fun _ => issued + 1) rfl).symm.trans (Forest.fold_pieces hf)
    obtain ⟨⟨text', ends⟩, hrest, heq⟩ := Option.map_eq_some_iff.1 hrest
    obtain rfl : ends = [] := congrArg Mark.Folded.ends heq
    obtain ⟨f', rfl, hf', -⟩ := Forest.exists_of_fold hrest
    exact ih hsettled hf' hreplace.symm

/-! ## The order of the calls -/

/-- The marks of a source over which the loop ends are those of a forest. -/
theorem exists_layout_of_oneByOne {source : Text} {tags : List Tag}
    (hl : Tag.list source = .ok tags) (h : Tag.Regular source tags)
    (hrun : oneByOne 0 source = .ok text) :
    ∃ lead f number, Forest.Layout lead f ∧ source = lead ++ f.text ∧ f.tags = tags ∧
      text = lead ++ f.translate (fun _ => number) ∧
      (f.blocks.map fun b => number b.2).Perm (List.range' 1 f.blocks.length) := by
  obtain ⟨lead, pieces, rfl, hlead, hreadable, hplaced, htags⟩ :=
    Tag.exists_marked (p := Place.first) hl h.spaced
  have hvalues := h.plain_values htags
  have hheads : (heads pieces).Nodup := by
    have hsorted := Forest.pairwise_placedFrom (Mark.text_ne_nil hreadable) (Place.first.past lead)
    rw [hplaced, ← htags] at hsorted
    refine (hsorted.imp fun hlt heq => ?_).filter _
    rw [heq] at hlt
    exact Nat.lt_irrefl _ hlt
  obtain ⟨number, text', hfold, rfl, hnumbers⟩ :=
    exists_fold_of_oneByOne ⟨hlead, hreadable, hvalues⟩ hheads hrun
  obtain ⟨f, rfl, hf, rfl⟩ := Forest.exists_of_fold hfold
  refine ⟨lead, f, number, ⟨⟨hf, hlead, hreadable, hplaced.trans htags.symm⟩, hvalues⟩, rfl, htags,
    rfl, ?_⟩
  rw [Forest.heads_pieces hf, List.map_map, List.length_map, Nat.zero_add] at hnumbers
  exact hnumbers

theorem bijOn_of_perm {α : Type} {items : List α} {a : α → Nat} {n : Nat}
    (h : (items.map a).Perm (List.range' 1 n)) :
    Set.BijOn a {x | x ∈ items} (Set.Icc 1 n) := by
  have hmem (k : Nat) : k ∈ items.map a ↔ k ∈ Set.Icc 1 n := by
    rw [h.mem_iff, List.mem_range'_1, Set.mem_Icc]
    omega
  refine ⟨fun x hx => (hmem _).1 (List.mem_map_of_mem hx), fun x hx y hy heq => ?_,
    fun k hk => List.mem_map.1 ((hmem k).2 hk)⟩
  exact List.inj_on_of_nodup_map (h.nodup_iff.2 List.nodup_range') hx hy heq

/-- Two numberings of the same items from one on differ by a renumbering. -/
theorem exists_renumbering {α : Type} {items : List α} {a b : α → Nat} {n : Nat}
    (ha : (items.map a).Perm (List.range' 1 n)) (hb : (items.map b).Perm (List.range' 1 n)) :
    ∃ σ, Set.BijOn σ (Set.Icc 1 n) (Set.Icc 1 n) ∧ ∀ x ∈ items, b x = σ (a x) := by
  cases items with
  | nil =>
    obtain rfl : n = 0 := by simpa using ha.length_eq.symm
    exact ⟨id, Set.bijOn_id _, nofun⟩
  | cons x items =>
    have : Nonempty α := ⟨x⟩
    have hbij := bijOn_of_perm ha
    have hinv := hbij.invOn_invFunOn
    refine ⟨b ∘ Function.invFunOn a {y | y ∈ x :: items},
      (bijOn_of_perm hb).comp (Set.BijOn.symm hinv.symm hbij), fun y hy => ?_⟩
    rw [Function.comp_apply, hinv.1 hy]

/-- Replacing blocks one by one succeeds exactly if an expansion without a registry does, and then
both end in the same text up to a renumbering of the calls. -/
theorem oneByOne_iff_expand {source : Text} {tags : List Tag} (hl : Tag.list source = .ok tags)
    (h : Tag.Regular source tags) :
    ((∃ text, oneByOne 0 source = .ok text) ↔
      ∃ n, (expand { registry := none } source).passes = .ok n) ∧
    ∀ text, oneByOne 0 source = .ok text →
      ∃ opening forest renumber, Forest.ofTags? source tags = some (opening, forest) ∧
        Set.BijOn renumber (Set.Icc 1 forest.blocks.length) (Set.Icc 1 forest.blocks.length) ∧
        (expand { registry := none } source).text = opening ++ forest.translate forest.number ∧
        text =
          opening ++ forest.translate fun height tag => renumber (forest.number height tag) := by
  refine ⟨⟨?_, ?_⟩, fun text hrun => ?_⟩
  · rintro ⟨text, hrun⟩
    obtain ⟨lead, f, number, hlayout, rfl, -⟩ := exists_layout_of_oneByOne hl h hrun
    exact ⟨f.height, by rw [expand_of_layout hlayout]⟩
  · rintro ⟨n, hn⟩
    cases hb : (Tag.list source).bind Tag.pairs with
    | error e =>
      rw [expand_of_structure_error _ hb] at hn
      cases hn
    | ok pairs =>
      rw [hl] at hb
      obtain ⟨lead, f, hlayout, rfl, -, -⟩ := exists_forest hl hb h
      exact exists_oneByOne ⟨hlayout.plain, hlayout.readable, hlayout.values⟩ hlayout.matched 0
  · obtain ⟨lead, f, number, hlayout, rfl, rfl, rfl, hnumbers⟩ :=
      exists_layout_of_oneByOne hl h hrun
    obtain ⟨renumber, hbij, heq⟩ :=
      exists_renumbering (Forest.perm_map_number hlayout.pairwise_blocks) hnumbers
    refine ⟨lead, f, renumber, hlayout.ofTags?_eq, hbij, ?_, ?_⟩
    · rw [expand_of_layout hlayout]
    · have htranslate : (f.translate fun _ => number) =
          f.translate fun height tag => renumber (f.number height tag) := Forest.translate_congr heq
      rw [htranslate]

/-! ## Two blocks side by side -/

/-- A source with two blocks, of which the loop replaces the second one first. -/
def besideSource : Text :=
  "<A></A><B/>".toList

def besideTags : List Tag :=
  [⟨['A'], .opening, [], ⟨0, 3⟩, 1⟩, ⟨['A'], .closing, [], ⟨3, 7⟩, 1⟩,
    ⟨['B'], .selfClosing, [], ⟨7, 11⟩, 1⟩]

/-- The calls of the two blocks with the given numbers. -/
def besideCalls (first second : Nat) : Text :=
  Call.ofBlock first (.enclosing besideTags[0] besideTags[1] []) ++
    Call.ofBlock second (.ofSelfClosing besideTags[2])

theorem list_besideSource : Tag.list besideSource = .ok besideTags := by
  have hfirst : Tag.next? (Token.list besideSource) =
      .ok (some (besideTags[0], (Token.list besideSource).drop 3)) := by cbv
  have hsecond : Tag.next? ((Token.list besideSource).drop 3) =
      .ok (some (besideTags[1], (Token.list besideSource).drop 6)) := by cbv
  have hthird : Tag.next? ((Token.list besideSource).drop 6) =
      .ok (some (besideTags[2], [])) := by cbv
  exact Tag.listOfTokens_some hfirst <| Tag.listOfTokens_some hsecond <|
    Tag.listOfTokens_some hthird (Tag.listOfTokens_none rfl)

theorem oneByOne_of_some {source : Text} {block : Block}
    (h : Block.innermost source = .ok (some block)) (issued : Nat) :
    oneByOne issued source = oneByOne (issued + 1) (replaceOne (issued + 1) source block) := by
  rw [oneByOne]
  split
  · next he => exact absurd (h.symm.trans he) nofun
  · next hn => exact absurd (h.symm.trans hn) nofun
  · next block' hs =>
    cases h.symm.trans hs
    rfl

theorem oneByOne_of_none {source : Text} (h : Block.innermost source = .ok none) (issued : Nat) :
    oneByOne issued source = .ok source := by
  rw [oneByOne]
  split
  · next he => exact absurd (h.symm.trans he) nofun
  · rfl
  · next hs => exact absurd (h.symm.trans hs) nofun

/-- The source after the loop has replaced its second block. -/
def besideStage : Text :=
  "<A></A>\x7b\x7b component(\"b\", \x7b\x7d, id=\"b-1\", ".toList ++
    "self_closing=true, is_end=false) \x7d\x7d".toList

theorem list_besideStage : Tag.list besideStage = .ok [besideTags[0], besideTags[1]] := by
  have hfirst : Tag.next? (Token.list besideStage) =
      .ok (some (besideTags[0], (Token.list besideStage).drop 3)) := by cbv
  have hsecond : Tag.next? ((Token.list besideStage).drop 3) =
      .ok (some (besideTags[1], (Token.list besideStage).drop 6)) := by cbv
  exact Tag.listOfTokens_some hfirst <| Tag.listOfTokens_some hsecond <|
    Tag.listOfTokens_none (by cbv)

theorem oneByOne_besideSource : oneByOne 0 besideSource = .ok (besideCalls 2 1) := by
  have hfirst : Block.innermost besideSource = .ok (some (.ofSelfClosing besideTags[2])) := by
    rw [Block.innermost, list_besideSource]
    cbv
  have hsecond : Block.innermost besideStage =
      .ok (some (.enclosing besideTags[0] besideTags[1] [])) := by
    rw [Block.innermost, list_besideStage]
    cbv
  have hdone : Tag.list (besideCalls 2 1) = .ok [] := Tag.listOfTokens_none (by cbv)
  have hlast : Block.innermost (besideCalls 2 1) = .ok none := by
    rw [Block.innermost, hdone]
    rfl
  have hstage : replaceOne 1 besideSource (.ofSelfClosing besideTags[2]) = besideStage := by cbv
  have hcalls : replaceOne 2 besideStage (.enclosing besideTags[0] besideTags[1] []) =
      besideCalls 2 1 := by cbv
  calc oneByOne 0 besideSource
      = oneByOne 1 besideStage := (oneByOne_of_some hfirst 0).trans (congrArg _ hstage)
    _ = oneByOne 2 (besideCalls 2 1) := (oneByOne_of_some hsecond 1).trans (congrArg _ hcalls)
    _ = .ok (besideCalls 2 1) := oneByOne_of_none hlast 2

def besideForest : Forest :=
  .pair ⟨besideTags[0], "<A>".toList⟩ [] .nil ⟨besideTags[1], "</A>".toList⟩ []
    (.single ⟨besideTags[2], "<B/>".toList⟩ [] .nil)

theorem ofTags?_besideSource :
    Forest.ofTags? besideSource besideTags = some ([], besideForest) := by
  cbv

theorem translate_besideForest (renumber : Nat → Nat) :
    (besideForest.translate fun height tag => renumber (besideForest.number height tag)) =
      besideCalls (renumber 1) (renumber 2) := by
  have htranslate (number : Nat → Tag → Nat) : besideForest.translate number =
      besideCalls (number 1 besideTags[0]) (number 1 besideTags[2]) := by
    simp [besideForest, Forest.translate, Forest.height, besideCalls]
  have hfirst : besideForest.number 1 besideTags[0] = 1 := by decide
  have hsecond : besideForest.number 1 besideTags[2] = 2 := by decide
  rw [htranslate, hfirst, hsecond]

theorem oneByOne_iff_expand_besideSource :
    Tag.list besideSource = .ok besideTags ∧ Tag.Regular besideSource besideTags ∧
      oneByOne 0 besideSource = .ok (besideCalls 2 1) ∧
      (∃ n, (expand { registry := none } besideSource).passes = .ok n) ∧
      (expand { registry := none } besideSource).text = besideCalls 1 2 ∧
      ∃ renumber, Set.BijOn renumber (Set.Icc 1 2) (Set.Icc 1 2) ∧
        besideCalls 2 1 = besideCalls (renumber 1) (renumber 2) := by
  have hregular : Tag.Regular besideSource besideTags := ⟨by decide, by decide⟩
  obtain ⟨hiff, htext⟩ := oneByOne_iff_expand list_besideSource hregular
  obtain ⟨opening, forest, renumber, hforest, hbij, hexpand, hrun⟩ :=
    htext _ oneByOne_besideSource
  cases ofTags?_besideSource.symm.trans hforest
  refine ⟨list_besideSource, hregular, oneByOne_besideSource, hiff.1 ⟨_, oneByOne_besideSource⟩,
    ?_, renumber, hbij, ?_⟩
  · exact hexpand.trans (translate_besideForest id)
  · exact hrun.trans (translate_besideForest renumber)

end Expander

end ComponentTags
